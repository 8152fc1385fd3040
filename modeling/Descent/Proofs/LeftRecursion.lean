import Descent.Proofs.Onward
import Mathlib.Data.Fintype.Card
import Mathlib.Logic.Relation

/-!
# Left recursion

Whether a parser may succeed without reading anything can be told from its structure
(`Rules.PossiblyEmpty`), and so can which rules it may refer to before anything has been read
(`Rules.Leads`).  Neither looks at an input.

* `Rules.possiblyEmpty_of_accepts`: the analysis is sound.  A grammar that succeeds where it
  started is possibly empty; all others use up input.
* `Rules.rank_lt`: where no rule reaches itself on the left, the rules have ranks below their
  number, and references on the left go down.

Both are read as least relations, so a rule that refers to itself is possibly empty only for a
reason that ends.
-/

namespace Descent

variable {α κ ρ : Type}

namespace Rules

/-- A grammar that may succeed without reading anything, judged by its structure. -/
inductive PossiblyEmpty (rules : Rules α κ ρ) : Grammar α κ ρ → Prop
  | tag (name : String) : PossiblyEmpty rules (.tag name [])
  | nothing : PossiblyEmpty rules .nothing
  | sequence {parts : List (Grammar α κ ρ)} :
    (∀ q ∈ parts, PossiblyEmpty rules q) → PossiblyEmpty rules (.sequence parts)
  | choice {alternatives : List (Grammar α κ ρ)} {q : Grammar α κ ρ} :
    q ∈ alternatives → PossiblyEmpty rules q → PossiblyEmpty rules (.choice alternatives)
  | pair {first second : Grammar α κ ρ} :
    PossiblyEmpty rules first → PossiblyEmpty rules second →
      PossiblyEmpty rules (.pair first second)
  | delimited {before body behind : Grammar α κ ρ} :
    PossiblyEmpty rules before → PossiblyEmpty rules body → PossiblyEmpty rules behind →
      PossiblyEmpty rules (.delimited before body behind)
  | orDefault (fallback : Tree α κ) (body : Grammar α κ ρ) :
    PossiblyEmpty rules (.orDefault fallback body)
  | repeatedNone {bounds : Bounds} (body : Grammar α κ ρ) :
    bounds.least = 0 → PossiblyEmpty rules (.repeated bounds body)
  | repeated (bounds : Bounds) {body : Grammar α κ ρ} :
    PossiblyEmpty rules body → PossiblyEmpty rules (.repeated bounds body)
  | separatedNone {bounds : Bounds} (body delimiter : Grammar α κ ρ) :
    bounds.least = 0 → PossiblyEmpty rules (.separated bounds body delimiter)
  | separated (bounds : Bounds) {body : Grammar α κ ρ} (delimiter : Grammar α κ ρ) :
    PossiblyEmpty rules body → PossiblyEmpty rules (.separated bounds body delimiter)
  | named (label : String) {body : Grammar α κ ρ} :
    PossiblyEmpty rules body → PossiblyEmpty rules (.named label body)
  | convert {body : Grammar α κ ρ} (f : Tree α κ → Except Fault (Tree α κ)) :
    PossiblyEmpty rules body → PossiblyEmpty rules (.convert body f)
  | mapEach {body : Grammar α κ ρ} (f : Tree α κ → Except Fault (Tree α κ)) :
    PossiblyEmpty rules body → PossiblyEmpty rules (.mapEach body f)
  | replace (value : Tree α κ) {body : Grammar α κ ρ} :
    PossiblyEmpty rules body → PossiblyEmpty rules (.replace value body)
  | matchOnly {body : Grammar α κ ρ} :
    PossiblyEmpty rules body → PossiblyEmpty rules (.matchOnly body)
  | defer (label : String) {rule : ρ} :
    PossiblyEmpty rules (rules rule) → PossiblyEmpty rules (.defer label rule)

/-- A grammar may run a reference to the rule before a part of it that is not possibly empty has
succeeded. -/
inductive Leads (rules : Rules α κ ρ) : Grammar α κ ρ → ρ → Prop
  | defer (label : String) (rule : ρ) : Leads rules (.defer label rule) rule
  | sequence {before behind : List (Grammar α κ ρ)} {q : Grammar α κ ρ} {rule : ρ} :
    (∀ p ∈ before, rules.PossiblyEmpty p) → Leads rules q rule →
      Leads rules (.sequence (before ++ q :: behind)) rule
  | choice {alternatives : List (Grammar α κ ρ)} {q : Grammar α κ ρ} {rule : ρ} :
    q ∈ alternatives → Leads rules q rule → Leads rules (.choice alternatives) rule
  | pairFirst {first second : Grammar α κ ρ} {rule : ρ} :
    Leads rules first rule → Leads rules (.pair first second) rule
  | pairSecond {first second : Grammar α κ ρ} {rule : ρ} :
    rules.PossiblyEmpty first → Leads rules second rule → Leads rules (.pair first second) rule
  | before {before body behind : Grammar α κ ρ} {rule : ρ} :
    Leads rules before rule → Leads rules (.delimited before body behind) rule
  | body {before body behind : Grammar α κ ρ} {rule : ρ} :
    rules.PossiblyEmpty before → Leads rules body rule →
      Leads rules (.delimited before body behind) rule
  | behind {before body behind : Grammar α κ ρ} {rule : ρ} :
    rules.PossiblyEmpty before → rules.PossiblyEmpty body → Leads rules behind rule →
      Leads rules (.delimited before body behind) rule
  | orDefault (fallback : Tree α κ) {body : Grammar α κ ρ} {rule : ρ} :
    Leads rules body rule → Leads rules (.orDefault fallback body) rule
  | repeated {bounds : Bounds} {body : Grammar α κ ρ} {rule : ρ} :
    bounds.greatest ≠ some 0 → Leads rules body rule → Leads rules (.repeated bounds body) rule
  | separated {bounds : Bounds} {body delimiter : Grammar α κ ρ} {rule : ρ} :
    bounds.greatest ≠ some 0 → Leads rules body rule →
      Leads rules (.separated bounds body delimiter) rule
  | delimiter {bounds : Bounds} {body delimiter : Grammar α κ ρ} {rule : ρ} :
    bounds.greatest ≠ some 0 → bounds.greatest ≠ some 1 → rules.PossiblyEmpty body →
      Leads rules delimiter rule → Leads rules (.separated bounds body delimiter) rule
  | named (label : String) {body : Grammar α κ ρ} {rule : ρ} :
    Leads rules body rule → Leads rules (.named label body) rule
  | convert {body : Grammar α κ ρ} (f : Tree α κ → Except Fault (Tree α κ)) {rule : ρ} :
    Leads rules body rule → Leads rules (.convert body f) rule
  | mapEach {body : Grammar α κ ρ} (f : Tree α κ → Except Fault (Tree α κ)) {rule : ρ} :
    Leads rules body rule → Leads rules (.mapEach body f) rule
  | replace (value : Tree α κ) {body : Grammar α κ ρ} {rule : ρ} :
    Leads rules body rule → Leads rules (.replace value body) rule
  | matchOnly {body : Grammar α κ ρ} {rule : ρ} :
    Leads rules body rule → Leads rules (.matchOnly body) rule

/-- One rule reaches another on the left if its grammar leads to it. -/
def LeftReaches (rules : Rules α κ ρ) (rule other : ρ) : Prop :=
  rules.Leads (rules rule) other

/-- Some rule reaches itself on the left, in one step or several. -/
def LeftRecursive (rules : Rules α κ ρ) : Prop :=
  ∃ rule, Relation.TransGen rules.LeftReaches rule rule

end Rules

/-! ## The analysis is sound -/

namespace Parser

variable {name : String} {v : Verbosity} {c next : Cursor α}

/-- A tag that ends where it began is empty. -/
theorem eq_nil_of_accepts_tag [DecidableEq α] {literal xs : List α}
    (h : ((tag name literal).run v).Accepts c xs next) (hstill : next.position = c.position) :
    literal = [] := by
  obtain ⟨hstarts, -, rfl⟩ := accepts_tag.mp h
  have hleft : literal.length ≤ c.left := by
    rw [← c.length_remaining]
    exact hstarts.length_le
  by_contra hne
  have hpos : 0 < literal.length := List.length_pos_iff.mpr hne
  have hmoves := Cursor.position_lt_advance hpos (Nat.lt_of_lt_of_le hpos hleft)
  exact absurd hstill (Nat.ne_of_gt hmoves)

theorem position_ne_of_accepts_takeSingle {test : α → Bool} {x : α}
    (h : ((takeSingle name test).run v).Accepts c x next) : next.position ≠ c.position := by
  obtain ⟨hvalue, -, rfl⟩ := accepts_takeSingle.mp h
  have hleft : 0 < c.left := by
    rw [← c.length_remaining, List.length_pos_iff]
    intro hnil
    rw [Cursor.value_eq_none_iff.mpr hnil] at hvalue
    exact absurd hvalue (by simp)
  exact Nat.ne_of_gt (Cursor.position_lt_advance Nat.one_pos hleft)

theorem position_ne_of_accepts_takeWhile {test : α → Bool} {xs : List α}
    (h : ((takeWhile name test).run v).Accepts c xs next) : next.position ≠ c.position := by
  obtain ⟨hxs, hne, rfl⟩ := accepts_takeWhile.mp h
  have hpos : 0 < xs.length := List.length_pos_iff.mpr hne
  have hleft : xs.length ≤ c.left := by
    rw [← c.length_remaining, hxs]
    exact (List.takeWhile_prefix test).length_le
  exact Nat.ne_of_gt (Cursor.position_lt_advance hpos (Nat.lt_of_lt_of_le hpos hleft))

/-- In a sequence that ends where it began every parser does so. -/
theorem still_of_accepts_sequence {β : Type} {ps : List (Parser α β)}
    (hps : ∀ p ∈ ps, (p.run v).Keeps Onward) {xs : List β}
    (h : ((sequence ps).run v).Accepts c xs next) (hstill : next.position = c.position) :
    ∀ p ∈ ps, ∃ c' x next', (p.run v).Accepts c' x next' ∧ next'.position = c'.position := by
  induction ps generalizing c xs with
  | nil => exact fun p hp => absurd hp List.not_mem_nil
  | cons p ps ih =>
    obtain ⟨x, mid, ys, hx, hys, -⟩ := accepts_sequence_cons.mp h
    have hrest : ∀ q ∈ ps, (q.run v).Keeps Onward := fun q hq => hps q (List.mem_cons_of_mem p hq)
    have hfirst := hps p List.mem_cons_self c x mid hx
    have hlater := keeps_sequence isPassage_onward hrest mid ys next hys
    obtain ⟨hmid, hnext⟩ := hfirst.still_of_between hlater hstill
    intro q hq
    rcases List.mem_cons.mp hq with rfl | hq
    · exact ⟨c, x, mid, hx, hmid⟩
    · exact ih hrest hys hnext q hq

/-- A list that ends where it began needs no element, or its first one ended there. -/
theorem still_of_accepts_listOf {β γ : Type} {p : Parser α β} {d : Parser α γ}
    (hp : (p.run v).Keeps Onward) (hd : (d.run v).Keeps Onward) {spare : Nat} {bounds : Bounds}
    {xs : List β} (h : ((listOf name spare bounds p d).run v).Accepts c xs next)
    (hstill : next.position = c.position) :
    bounds.least = 0 ∨ ∃ x mid, (p.run v).Accepts c x mid ∧ mid.position = c.position := by
  obtain ⟨links, stop, hcollects, henough, -, rfl⟩ := Repetition.accepts_listOf h
  cases hcollects with
  | none => exact Or.inl (Nat.le_zero.mp henough)
  | broken => exact Or.inl (Nat.le_zero.mp henough)
  | @more mid x links _ _ hx hrest =>
    have hfirst := hp c x mid hx
    have hlater := (hrest.led isPassage_onward hp hd).ended
    exact Or.inr ⟨x, mid, hx, (hfirst.still_of_between hlater hstill).1⟩

end Parser

namespace Rules

variable [DecidableEq α] {rules : Rules α κ ρ}

theorem FuncFree.onward {levels : Nat} {g : Grammar α κ ρ} (hg : rules.FuncFree g) {v : Verbosity}
    {c next : Cursor α} {x : Tree α κ} (h : ((rules.parser levels g).run v).Accepts c x next) :
    Onward c next :=
  hg.keeps isPassage_onward v c x next h

/-- **A grammar that succeeds where it started is possibly empty.**  Every other grammar uses up
input when it succeeds. -/
theorem possiblyEmpty_of_accepts {levels : Nat} {g : Grammar α κ ρ} (hg : rules.FuncFree g)
    {v : Verbosity} {c next : Cursor α} {x : Tree α κ}
    (h : ((rules.parser levels g).run v).Accepts c x next) (hstill : next.position = c.position) :
    rules.PossiblyEmpty g := by
  induction levels, g using Rules.induct rules generalizing v c next x with
  | tag levels name literal =>
    rw [parser_tag] at h
    obtain ⟨xs, hxs, -⟩ := Parser.accepts_map.mp h
    rw [Parser.eq_nil_of_accepts_tag hxs hstill]
    exact PossiblyEmpty.tag name
  | single levels name cls =>
    rw [parser_single] at h
    obtain ⟨y, hy, -⟩ := Parser.accepts_map.mp h
    exact absurd hstill (Parser.position_ne_of_accepts_takeSingle hy)
  | munch levels name cls =>
    rw [parser_munch] at h
    obtain ⟨xs, hxs, -⟩ := Parser.accepts_map.mp h
    exact absurd hstill (Parser.position_ne_of_accepts_takeWhile hxs)
  | nothing levels => exact PossiblyEmpty.nothing
  | sequence levels parts ih =>
    rw [parser_sequence] at h
    obtain ⟨xs, hxs, -⟩ := Parser.accepts_map.mp h
    have hkeeps : ∀ p ∈ parts.map (rules.parser levels), (p.run v).Keeps Onward :=
      List.forall_mem_map.mpr fun q hq => (hg.part hq).keeps isPassage_onward v
    have hstills := Parser.still_of_accepts_sequence hkeeps hxs hstill
    refine PossiblyEmpty.sequence fun q hq => ?_
    obtain ⟨c', y, next', hy, hstill'⟩ := hstills _ (List.mem_map_of_mem hq)
    exact ih q hq (hg.part hq) hy hstill'
  | choice levels alternatives ih =>
    rw [parser_choice] at h
    obtain ⟨before, p, behind, hsplit, -, hp⟩ := Parser.accepts_choice.mp h
    have hmem : p ∈ alternatives.map (rules.parser levels) := by
      rw [hsplit]
      simp
    obtain ⟨q, hq, rfl⟩ := List.mem_map.mp hmem
    exact PossiblyEmpty.choice hq (ih q hq (hg.part hq) hp hstill)
  | pair levels first second ihFirst ihSecond =>
    rw [parser_pair] at h
    obtain ⟨z, hz, -⟩ := Parser.accepts_map.mp h
    obtain ⟨y, mid, y', hy, hy', -⟩ := Parser.accepts_pair.mp hz
    have hfirst : rules.FuncFree first := hg.part (by simp)
    have hsecond : rules.FuncFree second := hg.part (by simp)
    obtain ⟨hmid, hnext⟩ := (hfirst.onward hy).still_of_between (hsecond.onward hy') hstill
    exact PossiblyEmpty.pair (ihFirst hfirst hy hmid) (ihSecond hsecond hy' hnext)
  | delimited levels before body behind ihBefore ihBody ihBehind =>
    rw [parser_delimited] at h
    obtain ⟨y, first, second, y'', hy, hy', hy''⟩ := Parser.accepts_delimited.mp h
    have hbefore : rules.FuncFree before := hg.part (by simp)
    have hbody : rules.FuncFree body := hg.part (by simp)
    have hbehind : rules.FuncFree behind := hg.part (by simp)
    have hlater := isPassage_onward.trans (hbody.onward hy') (hbehind.onward hy'')
    obtain ⟨hfirst, hrest⟩ := (hbefore.onward hy).still_of_between hlater hstill
    obtain ⟨hsecond, hnext⟩ := (hbody.onward hy').still_of_between (hbehind.onward hy'') hrest
    exact PossiblyEmpty.delimited (ihBefore hbefore hy hfirst) (ihBody hbody hy' hsecond)
      (ihBehind hbehind hy'' hnext)
  | orDefault levels fallback body ih => exact PossiblyEmpty.orDefault fallback body
  | repeated levels bounds body ih =>
    rw [parser_repeated] at h
    obtain ⟨xs, hxs, -⟩ := Parser.accepts_map.mp h
    have hbody : rules.FuncFree body := hg.part (by simp)
    rcases Parser.still_of_accepts_listOf (hbody.keeps isPassage_onward v)
      (Parser.keeps_nothing isPassage_onward) hxs hstill with hleast | ⟨y, mid, hy, hmid⟩
    · exact PossiblyEmpty.repeatedNone body hleast
    · exact PossiblyEmpty.repeated bounds (ih hbody hy hmid)
  | separated levels bounds body delimiter ihBody ihDelimiter =>
    rw [parser_separated] at h
    obtain ⟨xs, hxs, -⟩ := Parser.accepts_map.mp h
    have hbody : rules.FuncFree body := hg.part (by simp)
    have hdelimiter : rules.FuncFree delimiter := hg.part (by simp)
    rcases Parser.still_of_accepts_listOf (hbody.keeps isPassage_onward v)
      (hdelimiter.keeps isPassage_onward v) hxs hstill with hleast | ⟨y, mid, hy, hmid⟩
    · exact PossiblyEmpty.separatedNone body delimiter hleast
    · exact PossiblyEmpty.separated bounds delimiter (ihBody hbody hy hmid)
  | named levels label body ih =>
    rw [parser_named] at h
    exact PossiblyEmpty.named label (ih (hg.part (by simp)) (Parser.accepts_named.mp h) hstill)
  | convert levels body f ih =>
    rw [parser_convert] at h
    obtain ⟨y, hy, -⟩ := Parser.accepts_convert.mp h
    exact PossiblyEmpty.convert f (ih (hg.part (by simp)) hy hstill)
  | mapEach levels body f ih =>
    rw [parser_mapEach] at h
    obtain ⟨ys, hys, -⟩ := Parser.accepts_map.mp h
    obtain ⟨zs, hzs, -⟩ := Parser.accepts_convert.mp hys
    obtain ⟨y, hy, -⟩ := Parser.accepts_map.mp hzs
    exact PossiblyEmpty.mapEach f (ih (hg.part (by simp)) hy hstill)
  | replace levels value body ih =>
    rw [parser_replace] at h
    obtain ⟨y, hy, -⟩ := Parser.accepts_map.mp h
    exact PossiblyEmpty.replace value (ih (hg.part (by simp)) hy hstill)
  | matchOnly levels body ih =>
    rw [parser_matchOnly] at h
    obtain ⟨xs, hxs, -⟩ := Parser.accepts_map.mp h
    obtain ⟨y, hy, -⟩ := Parser.accepts_matchOnly.mp hxs
    exact PossiblyEmpty.matchOnly (ih (hg.part (by simp)) hy hstill)
  | cutOff label rule => exact absurd h (not_accepts_cutOff rules)
  | defer levels label rule ih =>
    rw [parser_defer_succ] at h
    exact PossiblyEmpty.defer label (ih hg.rule h hstill)
  | func levels run => exact absurd hg (not_funcFree_func run)

end Rules

/-! ## Ranks -/

namespace Rules

variable [Fintype ρ] {rules : Rules α κ ρ} {rule other : ρ}

open Classical in
/-- The number of rules that a rule reaches on the left. -/
noncomputable def rank (rules : Rules α κ ρ) (rule : ρ) : Nat :=
  (Finset.univ.filter fun other => Relation.TransGen rules.LeftReaches rule other).card

/-- References on the left go down in rank. -/
theorem rank_lt (hrules : ¬ rules.LeftRecursive) (h : rules.LeftReaches rule other) :
    rules.rank other < rules.rank rule := by
  classical
  refine Finset.card_lt_card (Finset.ssubset_iff_subset_ne.mpr ⟨?_, ?_⟩)
  · intro last hlast
    rw [Finset.mem_filter] at hlast ⊢
    exact ⟨hlast.1, Relation.TransGen.head h hlast.2⟩
  · intro heq
    have hmem : other ∈ Finset.univ.filter fun last =>
        Relation.TransGen rules.LeftReaches rule last :=
      Finset.mem_filter.mpr ⟨Finset.mem_univ other, Relation.TransGen.single h⟩
    rw [← heq, Finset.mem_filter] at hmem
    exact hrules ⟨other, hmem.2⟩

theorem rank_lt_card (hrules : ¬ rules.LeftRecursive) (rule : ρ) :
    rules.rank rule < Fintype.card ρ := by
  classical
  refine Finset.card_lt_univ_of_notMem (x := rule) ?_
  intro hmem
  rw [Finset.mem_filter] at hmem
  exact hrules ⟨rule, hmem.2⟩

end Rules

end Descent
