import Descent.Proofs.LeftRecursion

/-!
# Parsing ends

A grammar without functions whose rules have no left recursion comes to a result at every cursor,
and its references never nest deeper than the number of rules times the number of elements left,
plus one (`Rules.returns_of_not_leftRecursive`).

Two measures carry the proof.  References nest through the levels: at a cursor, `Enough` levels
are the number of rules for every element left, and beyond these the rank of every rule that the
grammar leads to there.  A reference on the left costs a level and goes down in rank; whatever is
run behind a part that used up input has all levels of one element to spend again.  Loops have
their own measure: a round that ends beyond where it began leaves fewer elements, and one that does
not is the last.

That no reference is nested deeper is said by letting such references do anything at all
(`Rules.runOver`): the run stays the same, events included.
-/

namespace Descent

variable {α β γ κ ρ : Type}

/-! ## Loops come to an end -/

namespace Parser

variable {step : Step α β} {I : Cursor α → Prop}

/-- The bounded loop ends if every round does. -/
theorem returns_collectUpTo (hstep : ∀ c, I c → step.Returns c)
    (hkeep : ∀ c x next, I c → step.Accepts c x next → I next) {rounds : Nat} {c : Cursor α}
    (hc : I c) : ∃ found, (collectUpTo step rounds c).result? = some (.ok found) := by
  induction rounds generalizing c with
  | zero => exact ⟨_, rfl⟩
  | succ rounds ih =>
    rw [collectUpTo]
    rcases Step.returns_iff.mp (hstep c hc) with ⟨x, next, hx⟩ | ⟨e, he⟩
    · obtain ⟨more, hmore⟩ := ih (hkeep c x next hc hx)
      exact ⟨_, Run.result?_attempt_bind.mpr
        ⟨_, hx, Run.result?_bind_eq_ok.mpr ⟨more, hmore, rfl⟩⟩⟩
    · exact ⟨_, Run.result?_attempt_bind.mpr ⟨_, he, rfl⟩⟩

/-- The unbounded loop ends if every round does and rounds that move use up input. -/
theorem returns_collectAll (hstep : ∀ c, I c → step.Returns c)
    (hkeep : ∀ c x next, I c → step.Accepts c x next → I next)
    (hless : ∀ c x next, I c → step.Accepts c x next → next.position ≠ c.position →
      next.left < c.left) {rounds : Nat} {c : Cursor α} (hc : I c) (hrounds : c.left < rounds) :
    ∃ found, (collectAll step rounds c).result? = some (.ok found) := by
  induction rounds generalizing c with
  | zero => exact absurd hrounds (Nat.not_lt_zero _)
  | succ rounds ih =>
    rw [collectAll]
    rcases Step.returns_iff.mp (hstep c hc) with ⟨x, next, hx⟩ | ⟨e, he⟩
    · by_cases hstill : next.position = c.position
      · refine ⟨.none c none, Run.result?_attempt_bind.mpr ⟨_, hx, ?_⟩⟩
        dsimp only
        rw [if_pos hstill]
        rfl
      · have hlt := hless c x next hc hx hstill
        obtain ⟨more, hmore⟩ := ih (hkeep c x next hc hx) (by omega)
        refine ⟨more.cons x, Run.result?_attempt_bind.mpr ⟨_, hx, ?_⟩⟩
        dsimp only
        rw [if_neg hstill]
        exact Run.result?_bind_eq_ok.mpr ⟨more, hmore, rfl⟩
    · exact ⟨_, Run.result?_attempt_bind.mpr ⟨_, he, rfl⟩⟩

variable {p : Parser α β} {d : Parser α γ} {v : Verbosity}

theorem returns_delimitedStep {c : Cursor α} (hd : (d.run v).Returns c)
    (hp : ∀ y mid, (d.run v).Accepts c y mid → (p.run v).Returns mid) :
    Step.Returns (delimitedStep p d v) c := by
  rcases Step.returns_iff.mp hd with ⟨y, mid, hy⟩ | ⟨e, he⟩
  · rcases Step.returns_iff.mp (hp y mid hy) with ⟨x, next, hx⟩ | ⟨e, he⟩
    · exact ((Repetition.accepts_delimitedStep p d v).mpr ⟨y, mid, hy, hx⟩).returns
    · exact ((Repetition.rejects_delimitedStep p d v).mpr (Or.inr ⟨y, mid, hy, he⟩)).returns
  · exact ((Repetition.rejects_delimitedStep p d v).mpr (Or.inl he)).returns

section Lists

variable {R : Cursor α → Cursor α → Prop} (hR : IsPassage R)
  (hless : ∀ {c next}, R c next → next.position ≠ c.position → next.left < c.left)
  (hp : (p.run v).Keeps R) (hd : (d.run v).Keeps R)

include hR hless hp hd

/-- What follows the first element comes to an end if every round does that the bound allows. -/
theorem returns_collectRest {spare : Nat} {greatest : Option Nat} {start : Cursor α}
    (hstep : greatest ≠ some 1 → ∀ c, R start c → Step.Returns (delimitedStep p d v) c) :
    ∃ found, (collectRest spare greatest (delimitedStep p d v) start).result? =
      some (.ok found) := by
  have hround : ∀ c x next, Step.Accepts (delimitedStep p d v) c x next → R c next := by
    intro c x next h
    exact ((Repetition.accepts_delimitedStep p d v).mp h).passage hR hp hd
  have hkeep : ∀ c x next, R start c → Step.Accepts (delimitedStep p d v) c x next →
      R start next :=
    fun c x next hc h => hR.trans hc (hround c x next h)
  rcases greatest with _ | most
  · have hrounds : start.left < start.left + 1 + spare := by omega
    exact returns_collectAll (hstep (by simp)) hkeep
      (fun c x next _ h hne => hless (hround c x next h) hne) (hR.refl start) hrounds
  · by_cases hone : most = 1
    · subst hone
      exact ⟨_, rfl⟩
    · exact returns_collectUpTo (hstep (by simpa using hone)) hkeep (hR.refl start)

/-- **A list comes to an end.**  Its parsers must only lead where moving uses up input, the element
must return at every cursor that they lead to from the start, and the delimiter at every cursor that
they lead to from the end of the first element; and neither needs to where the bound keeps it from
being run. -/
theorem returns_listOf {name : String} {spare : Nat} {bounds : Bounds} {start : Cursor α}
    (hbody : bounds.greatest ≠ some 0 → ∀ c, R start c → (p.run v).Returns c)
    (hdelimiter : bounds.greatest ≠ some 0 → bounds.greatest ≠ some 1 →
      ∀ x mid c, (p.run v).Accepts start x mid → R mid c → (d.run v).Returns c) :
    ((listOf name spare bounds p d).run v).Returns start := by
  have hcollect : ∃ found,
      (collect spare bounds.greatest p d v start).result? = some (.ok found) := by
    unfold collect
    by_cases hnone : bounds.greatest = some 0
    · rw [if_pos hnone]
      exact ⟨_, rfl⟩
    · rw [if_neg hnone]
      rcases Step.returns_iff.mp (hbody hnone start (hR.refl start)) with ⟨x, mid, hx⟩ | ⟨e, he⟩
      · have hstep : bounds.greatest ≠ some 1 →
            ∀ c, R mid c → Step.Returns (delimitedStep p d v) c := by
          intro hone c hc
          refine returns_delimitedStep (hdelimiter hnone hone x mid c hx hc) fun y next hy => ?_
          have hpast := hR.trans hc (hd c y next hy)
          exact hbody hnone next (hR.trans (hp start x mid hx) hpast)
        obtain ⟨more, hmore⟩ := returns_collectRest hR hless hp hd hstep
        exact ⟨_, Run.result?_attempt_bind.mpr
          ⟨_, hx, Run.result?_bind_eq_ok.mpr ⟨more, hmore, rfl⟩⟩⟩
      · exact ⟨_, Run.result?_attempt_bind.mpr ⟨_, he, rfl⟩⟩
  obtain ⟨found, hfound⟩ := hcollect
  unfold Step.Returns listOf
  dsimp only
  rw [Run.result?_bind, hfound]
  dsimp only
  split
  · exact ⟨_, rfl⟩
  · exact ⟨_, rfl⟩

end Lists

end Parser

/-! ## Enough levels -/

namespace Rules

variable [Fintype ρ] {rules : Rules α κ ρ} {levels : Nat} {g q : Grammar α κ ρ}
  {c next : Cursor α}

/-- At the cursor there are levels for what is left, and, for every rule that the grammar leads to
before anything is read, as many more as the rule's rank and one. -/
def Enough (rules : Rules α κ ρ) (levels : Nat) (g : Grammar α κ ρ) (c : Cursor α) : Prop :=
  Fintype.card ρ * c.left ≤ levels ∧
    ∀ rule, rules.Leads g rule → Fintype.card ρ * c.left + rules.rank rule + 1 ≤ levels

/-- A grammar that leads to no more rules than another needs no more levels. -/
theorem Enough.of_leads (h : rules.Enough levels g c)
    (hleads : ∀ rule, rules.Leads q rule → rules.Leads g rule) : rules.Enough levels q c :=
  ⟨h.1, fun rule hrule => h.2 rule (hleads rule hrule)⟩

theorem Enough.onward (h : rules.Enough levels g c) (hnext : Onward c next) :
    rules.Enough levels g next := by
  have hle : Fintype.card ρ * next.left ≤ Fintype.card ρ * c.left :=
    Nat.mul_le_mul_left _ hnext.left_le
  refine ⟨Nat.le_trans hle h.1, fun rule hrule => ?_⟩
  have hrank := h.2 rule hrule
  omega

/-- Where input has been used up, the levels of one element pay for any grammar. -/
theorem Enough.of_left_lt (hrules : ¬ rules.LeftRecursive) (h : rules.Enough levels g c)
    (hlt : next.left < c.left) : rules.Enough levels q next := by
  have hone : Fintype.card ρ * (next.left + 1) ≤ Fintype.card ρ * c.left :=
    Nat.mul_le_mul_left _ hlt
  rw [Nat.mul_succ] at hone
  have hlevels := h.1
  refine ⟨by omega, fun rule _ => ?_⟩
  have hrank := rank_lt_card hrules rule
  omega

/-- **What is run behind a success has enough levels** if the whole grammar had, and leads to no
more rules in case nothing was read. -/
theorem Enough.behind (hrules : ¬ rules.LeftRecursive) (h : rules.Enough levels g c)
    (hnext : Onward c next)
    (hleads : next.position = c.position → ∀ rule, rules.Leads q rule → rules.Leads g rule) :
    rules.Enough levels q next := by
  by_cases hstill : next.position = c.position
  · exact (h.of_leads (hleads hstill)).onward hnext
  · exact h.of_left_lt hrules (hnext.left_lt hstill)

/-- A reference spends one level, and its rule leads to rules of lower rank only. -/
theorem Enough.rule (hrules : ¬ rules.LeftRecursive) {label : String} {rule : ρ}
    (h : rules.Enough (levels + 1) (.defer label rule) c) :
    rules.Enough levels (rules rule) c := by
  have hrule := h.2 rule (Leads.defer label rule)
  refine ⟨by omega, fun other hother => ?_⟩
  have hrank : rules.rank other < rules.rank rule := rank_lt hrules hother
  omega

/-- The number of rules for every element left and once more is enough for all grammars. -/
theorem enough_of_le (hrules : ¬ rules.LeftRecursive)
    (h : Fintype.card ρ * (c.left + 1) ≤ levels) : rules.Enough levels g c := by
  rw [Nat.mul_succ] at h
  refine ⟨by omega, fun rule _ => ?_⟩
  have hrank := rank_lt_card hrules rule
  omega

/-! ## Grammars come to an end -/

variable [DecidableEq α]

/-- A sequence returns if each of its grammars does where it has enough levels. -/
theorem returns_sequence (hrules : ¬ rules.LeftRecursive) {parts : List (Grammar α κ ρ)}
    (hfree : ∀ q ∈ parts, rules.FuncFree q) {v : Verbosity}
    (hparts : ∀ q ∈ parts, ∀ c, rules.Enough levels q c →
      ((rules.parser levels q).run v).Returns c)
    (h : rules.Enough levels (.sequence parts) c) :
    ((Parser.sequence (parts.map (rules.parser levels))).run v).Returns c := by
  induction parts generalizing c with
  | nil => exact (Parser.accepts_sequence_nil.mpr ⟨rfl, rfl⟩).returns
  | cons q parts ih =>
    rw [List.map_cons, Parser.run_sequence_cons]
    refine Parser.returns_map (Parser.returns_pair ?_ fun x mid hx => ?_)
    · refine hparts q List.mem_cons_self c (h.of_leads fun rule hrule => ?_)
      show rules.Leads (.sequence ([] ++ q :: parts)) rule
      exact Leads.sequence (fun p hp => absurd hp List.not_mem_nil) hrule
    · have hfirst := hfree q List.mem_cons_self
      refine ih (fun p hp => hfree p (List.mem_cons_of_mem q hp))
        (fun p hp => hparts p (List.mem_cons_of_mem q hp)) ?_
      refine h.behind hrules (hfirst.onward hx) fun hstill rule hrule => ?_
      -- What the later parts lead to, all parts lead to, because the first one is possibly empty.
      have hempty := possiblyEmpty_of_accepts hfirst hx hstill
      cases hrule with
      | @sequence before behind p _ hbefore hp =>
        show rules.Leads (.sequence ((q :: before) ++ p :: behind)) rule
        exact Leads.sequence (List.forall_mem_cons.mpr ⟨hempty, hbefore⟩) hp

/-- **With enough levels every grammar returns.** -/
theorem returns_of_enough (hrules : ¬ rules.LeftRecursive) (hg : rules.FuncFree g) (v : Verbosity)
    (h : rules.Enough levels g c) : ((rules.parser levels g).run v).Returns c := by
  induction levels, g using Rules.induct rules generalizing v c with
  | tag levels name literal =>
    rw [parser_tag]
    exact Parser.returns_map (Parser.returns_tag literal)
  | single levels name cls =>
    rw [parser_single]
    exact Parser.returns_map (Parser.returns_takeSingle cls.accepts)
  | munch levels name cls =>
    rw [parser_munch]
    exact Parser.returns_map (Parser.returns_takeWhile cls.accepts)
  | nothing levels =>
    rw [parser_nothing]
    exact Parser.returns_map Parser.returns_nothing
  | sequence levels parts ih =>
    rw [parser_sequence]
    exact Parser.returns_map (returns_sequence hrules (fun q hq => hg.part hq)
      (fun q hq c hc => ih q hq (hg.part hq) v hc) h)
  | choice levels alternatives ih =>
    rw [parser_choice]
    refine Parser.returns_choice fun p hp => ?_
    obtain ⟨q, hq, rfl⟩ := List.mem_map.mp hp
    exact ih q hq (hg.part hq) .terse (h.of_leads fun rule => Leads.choice hq)
  | pair levels first second ihFirst ihSecond =>
    rw [parser_pair]
    have hfirst : rules.FuncFree first := hg.part (by simp)
    have hsecond : rules.FuncFree second := hg.part (by simp)
    refine Parser.returns_map (Parser.returns_pair ?_ fun x mid hx => ?_)
    · exact ihFirst hfirst v (h.of_leads fun rule => Leads.pairFirst)
    · refine ihSecond hsecond v (h.behind hrules (hfirst.onward hx) fun hstill rule => ?_)
      exact Leads.pairSecond (possiblyEmpty_of_accepts hfirst hx hstill)
  | delimited levels before body behind ihBefore ihBody ihBehind =>
    rw [parser_delimited, Parser.run_delimited]
    have hbefore : rules.FuncFree before := hg.part (by simp)
    have hbody : rules.FuncFree body := hg.part (by simp)
    have hbehind : rules.FuncFree behind := hg.part (by simp)
    refine Parser.returns_map (Parser.returns_pair ?_ fun x first hx =>
      Parser.returns_pair ?_ fun y second hy => ?_)
    · exact ihBefore hbefore v (h.of_leads fun rule => Leads.before)
    · refine ihBody hbody v (h.behind hrules (hbefore.onward hx) fun hstill rule => ?_)
      exact Leads.body (possiblyEmpty_of_accepts hbefore hx hstill)
    · have hpast := isPassage_onward.trans (hbefore.onward hx) (hbody.onward hy)
      refine ihBehind hbehind v (h.behind hrules hpast fun hstill rule => ?_)
      obtain ⟨hfirst, hsecond⟩ := (hbefore.onward hx).still_of_between (hbody.onward hy) hstill
      exact Leads.behind (possiblyEmpty_of_accepts hbefore hx hfirst)
        (possiblyEmpty_of_accepts hbody hy hsecond)
  | orDefault levels fallback body ih =>
    rw [parser_orDefault]
    exact Parser.returns_orDefault
      (ih (hg.part (by simp)) .terse (h.of_leads fun rule => Leads.orDefault fallback))
  | repeated levels bounds body ih =>
    rw [parser_repeated]
    have hbody : rules.FuncFree body := hg.part (by simp)
    refine Parser.returns_map (Parser.returns_listOf isPassage_onward Onward.left_lt
      (hbody.keeps isPassage_onward v) (Parser.keeps_nothing isPassage_onward) ?_ ?_)
    · intro hroom c' hc'
      exact ih hbody v ((h.of_leads fun rule => Leads.repeated hroom).onward hc')
    · exact fun _ _ _ _ _ _ _ => Parser.returns_nothing
  | separated levels bounds body delimiter ihBody ihDelimiter =>
    rw [parser_separated]
    have hbody : rules.FuncFree body := hg.part (by simp)
    have hdelimiter : rules.FuncFree delimiter := hg.part (by simp)
    refine Parser.returns_map (Parser.returns_listOf isPassage_onward Onward.left_lt
      (hbody.keeps isPassage_onward v) (hdelimiter.keeps isPassage_onward v) ?_ ?_)
    · intro hroom c' hc'
      exact ihBody hbody v ((h.of_leads fun rule => Leads.separated hroom).onward hc')
    · intro hroom hroom' x mid c' hx hc'
      have hmid : rules.Enough levels delimiter mid := by
        refine h.behind hrules (hbody.onward hx) fun hstill rule => ?_
        exact Leads.delimiter hroom hroom' (possiblyEmpty_of_accepts hbody hx hstill)
      exact ihDelimiter hdelimiter v (hmid.onward hc')
  | named levels label body ih =>
    rw [parser_named]
    exact Parser.returns_named
      (ih (hg.part (by simp)) v (h.of_leads fun rule => Leads.named label))
  | convert levels body f ih =>
    rw [parser_convert]
    exact Parser.returns_convert
      (ih (hg.part (by simp)) v (h.of_leads fun rule => Leads.convert f))
  | mapEach levels body f ih =>
    rw [parser_mapEach]
    have hbody := ih (hg.part (by simp)) v (h.of_leads fun rule => Leads.mapEach f)
    exact Parser.returns_map (Parser.returns_convert (Parser.returns_map hbody))
  | replace levels value body ih =>
    rw [parser_replace]
    exact Parser.returns_map
      (ih (hg.part (by simp)) v (h.of_leads fun rule => Leads.replace value))
  | matchOnly levels body ih =>
    rw [parser_matchOnly]
    have hbody := ih (hg.part (by simp)) v (h.of_leads fun rule => Leads.matchOnly)
    exact Parser.returns_map (Parser.returns_matchOnly hbody)
  | cutOff label rule => exact absurd (h.2 rule (Leads.defer label rule)) (Nat.not_succ_le_zero _)
  | defer levels label rule ih =>
    rw [parser_defer_succ]
    exact ih hg.rule v (h.rule hrules)
  | func levels run => exact absurd hg (not_funcFree_func run)

end Rules

/-! ## How deep references nest -/

namespace Rules

variable [DecidableEq α]

/-- What a rule does when references may nest so many levels deep and those that would nest deeper
do something given. -/
def runOver (rules : Rules α κ ρ) (beyond : ρ → Verbosity → Step α (Tree α κ)) :
    Nat → ρ → Verbosity → Step α (Tree α κ)
  | 0 => beyond
  | levels + 1 => fun rule => ((rules rule).parser levels (rules.runOver beyond levels)).run

/-- The parser of a grammar where references that would nest deeper than so many levels do
something given. -/
def parserOver (rules : Rules α κ ρ) (beyond : ρ → Verbosity → Step α (Tree α κ)) (levels : Nat)
    (g : Grammar α κ ρ) : Parser α (Tree α κ) :=
  g.parser levels (rules.runOver beyond levels)

variable {rules : Rules α κ ρ}

theorem steps_runOver (beyond : ρ → Verbosity → Step α (Tree α κ)) (levels : Nat) (rule : ρ)
    (v : Verbosity) :
    (furtherOn α).Steps Eq Eq (rules.run levels rule v) (rules.runOver beyond levels rule v) := by
  induction levels generalizing rule v with
  | zero => exact fun c c' _ => trivial
  | succ levels ih => exact (rules rule).steps_furtherOn (Nat.le_refl levels) ih v

/-- A run that is not cut off has no reference nested deeper than its levels: whatever those did,
it would be the same. -/
theorem parserOver_eq_of_finished (beyond : ρ → Verbosity → Step α (Tree α κ)) {levels : Nat}
    {g : Grammar α κ ρ} {v : Verbosity} {c : Cursor α} {events : List Event}
    {r : Except (ParseError α) (Tree α κ × Cursor α)}
    (h : (rules.parser levels g).run v c = .finished events r) :
    (rules.parserOver beyond levels g).run v c = .finished events r :=
  furtherOn_run (g.steps_furtherOn (Nat.le_refl levels)
    (fun rule v => steps_runOver beyond levels rule v) v) h

/-- **Without left recursion parsing ends.**  Take finitely many rules of which none reaches itself
on the left, and a grammar over them without functions.  At every cursor and both verbosities it
comes to a result, and to the same one with any number of levels from the number of rules times the
number of elements left, plus one, on.  No reference nests deeper than this: whatever deeper ones
did, the run would be the same. -/
theorem returns_of_not_leftRecursive [Fintype ρ] (rules : Rules α κ ρ) (g : Grammar α κ ρ)
    (hg : rules.FuncFree g) (hrules : ¬ rules.LeftRecursive) (v : Verbosity) (c : Cursor α) :
    ∃ events r,
      (∀ levels, Fintype.card ρ * (c.left + 1) ≤ levels →
        (rules.parser levels g).run v c = .finished events r) ∧
      ∀ beyond, (rules.parserOver beyond (Fintype.card ρ * (c.left + 1)) g).run v c =
        .finished events r := by
  have henough : rules.Enough (Fintype.card ρ * (c.left + 1)) g c :=
    enough_of_le hrules (Nat.le_refl _)
  obtain ⟨r, hr⟩ := returns_of_enough hrules hg v henough
  rcases hrun : (rules.parser (Fintype.card ρ * (c.left + 1)) g).run v c with ⟨events, r'⟩ | _
  · refine ⟨events, r', fun levels hle => run_eq_of_le hle hrun, fun beyond => ?_⟩
    exact parserOver_eq_of_finished beyond hrun
  · rw [hrun] at hr
    exact absurd hr (by simp)

/-- Groups in parentheses of any number of `x`, none of which has to be there, with any number of
groups between two of them. -/
def groups : Rules Char Unit Unit := fun _ =>
  .delimited (.tag "OPEN" ['('])
    (.separated .any (.orDefault .absent (.tag "X" ['x'])) (.repeated .any (.defer "GROUP" ())))
    (.tag "CLOSE" [')'])

/-- Elements and delimiters of the groups may all be empty, and still parsing ends. -/
theorem groups_return :
    groups.FuncFree (.defer "GROUP" ()) ∧ ¬ groups.LeftRecursive ∧
      ∃ events r,
        (∀ levels, Fintype.card Unit * ((Cursor.new ['(', 'x', '(', ')', 'x']).left + 1) ≤ levels →
          (groups.parser levels (.defer "GROUP" ())).run .terse
            (Cursor.new ['(', 'x', '(', ')', 'x']) = .finished events r) ∧
        ∀ beyond, (groups.parserOver beyond
            (Fintype.card Unit * ((Cursor.new ['(', 'x', '(', ')', 'x']).left + 1))
            (.defer "GROUP" ())).run .terse
          (Cursor.new ['(', 'x', '(', ')', 'x']) = .finished events r := by
  have hfree : groups.FuncFree (.defer "GROUP" ()) := funcFree_of_hasFunc rfl fun _ => rfl
  have hrules : ¬ groups.LeftRecursive := by
    intro h
    obtain ⟨rule, hreaches⟩ := h
    obtain ⟨other, hleads, -⟩ := Relation.TransGen.head'_iff.mp hreaches
    have hopen : ¬ groups.PossiblyEmpty (.tag "OPEN" ['(']) := fun h => nomatch h
    unfold LeftReaches groups at hleads
    cases hleads with
    | before h => nomatch h
    | body h _ => exact hopen h
    | behind h _ _ => exact hopen h
  exact ⟨hfree, hrules, groups.returns_of_not_leftRecursive _ hfree hrules .terse _⟩

end Rules

end Descent
