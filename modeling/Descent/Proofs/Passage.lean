import Descent.Proofs.Parts
import Descent.Proofs.Repetition

/-!
# From the start of a success to its end

A leaf that succeeds moves the cursor by some number of elements, and everything else is put
together from successes of its parts, one behind the other.  So a relation between cursors that is
reflexive and transitive and holds of every move forward (`IsPassage`) holds between the start and
the end of every success, provided the functions in the grammar keep it (`Rules.keeps`).

An error, too, is either the grammar's own, at the place where the grammar started, or it is that
of a part, at a place which the parts before it have led to (`Rules.origin`).
-/

namespace Descent

variable {α β γ κ ρ : Type}

/-- Every success of the step leads from its start to its end by the relation. -/
def Step.Keeps (R : Cursor α → Cursor α → Prop) (s : Step α β) : Prop :=
  ∀ c x next, s.Accepts c x next → R c next

/-- A relation that staying, moving forward and one passage after another all keep. -/
structure IsPassage (R : Cursor α → Cursor α → Prop) : Prop where
  refl : ∀ c, R c c
  trans : ∀ {a b c : Cursor α}, R a b → R b c → R a c
  advance : ∀ (c : Cursor α) (count : Nat), R c (c.advance count)

/-! ## Lists -/

namespace Repetition

variable {R : Cursor α → Cursor α → Prop} {p : Parser α β} {d : Parser α γ} {v : Verbosity}
  {c start : Cursor α} {links : List (β × Cursor α)} {greatest : Option Nat}
  {stop : Option (ParseError α)}

theorem Iterates.passage (hR : IsPassage R) (hp : (p.run v).Keeps R) (hd : (d.run v).Keeps R)
    {x : β} {next : Cursor α} (h : Iterates p d v c x next) : R c next := by
  obtain ⟨y, mid, hy, hx⟩ := h
  exact hR.trans (hd c y mid hy) (hp mid x next hx)

/-- What is collected from a cursor on ends where the relation leads, and so does the place of the
attempt that ended it, if one did. -/
structure Led (R : Cursor α → Cursor α → Prop) (p : Parser α β) (d : Parser α γ) (v : Verbosity)
    (c last : Cursor α) (stop : Option (ParseError α)) : Prop where
  ended : R c last
  stopped : ∀ e, stop = some e →
    ∃ c', R c c' ∧ ((p.run v).Rejects c' e ∨ (d.run v).Rejects c' e)

theorem Led.still (hR : IsPassage R) (c : Cursor α) : Led R p d v c c none :=
  ⟨hR.refl c, fun _ h => absurd h (by simp)⟩

theorem Led.behind (hR : IsPassage R) {next last : Cursor α} (hstep : R c next)
    (h : Led R p d v next last stop) : Led R p d v c last stop := by
  refine ⟨hR.trans hstep h.ended, fun e he => ?_⟩
  obtain ⟨c', hc', hreject⟩ := h.stopped e he
  exact ⟨c', hR.trans hstep hc', hreject⟩

theorem Rest.led (hR : IsPassage R) (hp : (p.run v).Keeps R) (hd : (d.run v).Keeps R)
    {room : Option Nat} (h : Rest p d v room c links stop) :
    Led R p d v c (endOf c links) stop := by
  induction h with
  | full c => exact Led.still hR c
  | @broken room c e _ hbreaks =>
    refine ⟨hR.refl c, ?_⟩
    rintro _ ⟨⟩
    rcases hbreaks with hd' | ⟨y, mid, hy, hp'⟩
    · exact ⟨c, hR.refl c, Or.inr hd'⟩
    · exact ⟨mid, hd c y mid hy, Or.inl hp'⟩
  | idle => exact Led.still hR _
  | counted hiter _ ih => exact ih.behind hR (hiter.passage hR hp hd)
  | moved hiter _ _ ih => exact ih.behind hR (hiter.passage hR hp hd)

theorem Collects.led (hR : IsPassage R) (hp : (p.run v).Keeps R) (hd : (d.run v).Keeps R)
    (h : Collects p d v greatest start links stop) :
    Led R p d v start (endOf start links) stop := by
  cases h with
  | none => exact Led.still hR start
  | broken _ hreject =>
    refine ⟨hR.refl start, ?_⟩
    rintro _ ⟨⟩
    exact ⟨start, hR.refl start, Or.inl hreject⟩
  | @more next x links stop _ hx hrest => exact (hrest.led hR hp hd).behind hR (hp start x next hx)

end Repetition

/-! ## One parser at a time -/

namespace Parser

variable {R : Cursor α → Cursor α → Prop} {p : Parser α β} {q : Parser α γ} {v : Verbosity}

theorem keeps_map {f : β → γ} (h : (p.run v).Keeps R) : ((p.map f).run v).Keeps R := by
  intro c y next hy
  obtain ⟨x, hx, -⟩ := accepts_map.mp hy
  exact h c x next hx

theorem keeps_convert {f : β → Except Fault γ} (h : (p.run v).Keeps R) :
    ((p.convert f).run v).Keeps R := by
  intro c y next hy
  obtain ⟨x, hx, -⟩ := accepts_convert.mp hy
  exact h c x next hx

theorem keeps_matchOnly (h : (p.run v).Keeps R) : (p.matchOnly.run v).Keeps R := by
  intro c xs next hxs
  obtain ⟨x, hx, -⟩ := accepts_matchOnly.mp hxs
  exact h c x next hx

theorem keeps_named {label : String} (h : (p.run v).Keeps R) : ((p.named label).run v).Keeps R :=
  fun c x next hx => h c x next (accepts_named.mp hx)

theorem keeps_pair (hR : IsPassage R) (hp : (p.run v).Keeps R) (hq : (q.run v).Keeps R) :
    ((pair p q).run v).Keeps R := by
  intro c z next hz
  obtain ⟨x, mid, y, hx, hy, -⟩ := accepts_pair.mp hz
  exact hR.trans (hp c x mid hx) (hq mid y next hy)

theorem keeps_delimited {δ : Type} {d : Parser α δ} (hR : IsPassage R) (hp : (p.run v).Keeps R)
    (hq : (q.run v).Keeps R) (hd : (d.run v).Keeps R) :
    ((delimited p q d).run v).Keeps R := by
  rw [run_delimited]
  exact keeps_map (keeps_pair hR hp (keeps_pair hR hq hd))

theorem keeps_sequence (hR : IsPassage R) {ps : List (Parser α β)}
    (h : ∀ p ∈ ps, (p.run v).Keeps R) : ((sequence ps).run v).Keeps R := by
  induction ps with
  | nil =>
    intro c xs next hxs
    rw [(accepts_sequence_nil.mp hxs).2]
    exact hR.refl c
  | cons p ps ih =>
    rw [run_sequence_cons]
    have hps := ih fun q hq => h q (List.mem_cons_of_mem p hq)
    exact keeps_map (keeps_pair hR (h p List.mem_cons_self) hps)

theorem keeps_choice {ps : List (Parser α β)} (h : ∀ p ∈ ps, (p.run .terse).Keeps R) :
    ((choice ps).run v).Keeps R := by
  intro c x next hx
  obtain ⟨before, p, behind, rfl, -, hp⟩ := accepts_choice.mp hx
  exact h p (by simp) c x next hp

theorem keeps_orDefault (hR : IsPassage R) {fallback : β} (h : (p.run .terse).Keeps R) :
    ((p.orDefault fallback).run v).Keeps R := by
  intro c x next hx
  rcases accepts_orDefault.mp hx with hp | ⟨-, -, rfl⟩
  · exact h c x next hp
  · exact hR.refl _

theorem keeps_tag [DecidableEq α] (hR : IsPassage R) (name : String) (literal : List α) :
    ((tag name literal).run v).Keeps R := by
  intro c xs next hxs
  obtain ⟨-, -, rfl⟩ := accepts_tag.mp hxs
  exact hR.advance c _

theorem keeps_takeSingle (hR : IsPassage R) (name : String) (test : α → Bool) :
    ((takeSingle name test).run v).Keeps R := by
  intro c x next hx
  obtain ⟨-, -, rfl⟩ := accepts_takeSingle.mp hx
  exact hR.advance c 1

theorem keeps_takeWhile (hR : IsPassage R) (name : String) (test : α → Bool) :
    ((takeWhile name test).run v).Keeps R := by
  intro c xs next hxs
  obtain ⟨-, -, rfl⟩ := accepts_takeWhile.mp hxs
  exact hR.advance c _

theorem keeps_nothing (hR : IsPassage R) : ((nothing : Parser α Unit).run v).Keeps R := by
  intro c x next hx
  rw [accepts_nothing.mp hx]
  exact hR.refl c

theorem keeps_listOf (hR : IsPassage R) {name : String} {spare : Nat} {bounds : Bounds}
    (hp : (p.run v).Keeps R) (hq : (q.run v).Keeps R) :
    ((listOf name spare bounds p q).run v).Keeps R := by
  intro c xs next hxs
  obtain ⟨links, stop, hcollects, -, -, rfl⟩ := Repetition.accepts_listOf hxs
  exact (hcollects.led hR hp hq).ended

/-- The error of a sequence is that of one of its parsers, behind successes of those before it. -/
theorem rejects_sequence (hR : IsPassage R) {ps : List (Parser α β)}
    (h : ∀ p ∈ ps, (p.run v).Keeps R) {c : Cursor α} {e : ParseError α}
    (he : ((sequence ps).run v).Rejects c e) :
    ∃ p ∈ ps, ∃ c', R c c' ∧ (p.run v).Rejects c' e := by
  induction ps generalizing c with
  | nil => exact absurd he not_rejects_sequence_nil
  | cons p ps ih =>
    rcases rejects_sequence_cons.mp he with hp | ⟨x, mid, hx, hps⟩
    · exact ⟨p, List.mem_cons_self, c, hR.refl c, hp⟩
    · have hstep := h p List.mem_cons_self c x mid hx
      obtain ⟨q, hq, c', hc', hreject⟩ := ih (fun q hq => h q (List.mem_cons_of_mem p hq)) hps
      exact ⟨q, List.mem_cons_of_mem p hq, c', hR.trans hstep hc', hreject⟩

/-- The error of a list is its own, or that of an element or a delimiter behind successes of
both. -/
theorem rejects_listOf (hR : IsPassage R) {name : String} {spare : Nat} {bounds : Bounds}
    (hp : (p.run v).Keeps R) (hq : (q.run v).Keeps R) {c : Cursor α} {e : ParseError α}
    (he : ((listOf name spare bounds p q).run v).Rejects c e) :
    e = .mismatch v name c ∨ ∃ c', R c c' ∧ ((p.run v).Rejects c' e ∨ (q.run v).Rejects c' e) := by
  obtain ⟨links, stop, hcollects, rfl⟩ := Repetition.rejects_listOf he
  rcases stop with _ | e
  · exact Or.inl rfl
  · exact Or.inr ((hcollects.led hR hp hq).stopped e rfl)

end Parser

/-! ## Grammars -/

namespace Rules

variable [DecidableEq α] (rules : Rules α κ ρ) {R : Cursor α → Cursor α → Prop}

/-- At level zero a reference does nothing. -/
theorem not_accepts_cutOff {label : String} {rule : ρ} {v : Verbosity} {c next : Cursor α}
    {x : Tree α κ} : ¬ ((rules.parser 0 (.defer label rule)).run v).Accepts c x next := by
  rw [parser_cutOff]
  exact fun h => absurd h (by simp [Step.Accepts])

theorem not_rejects_cutOff {label : String} {rule : ρ} {v : Verbosity} {c : Cursor α}
    {e : ParseError α} : ¬ ((rules.parser 0 (.defer label rule)).run v).Rejects c e := by
  rw [parser_cutOff]
  exact fun h => absurd h (by simp [Step.Rejects])

/-- A grammar keeps what its parts, its rule if it is a reference, and its function if it is one
keep. -/
theorem keeps_of_parts (hR : IsPassage R) {levels : Nat} {g : Grammar α κ ρ}
    (hparts : ∀ q ∈ g.parts, ∀ v, ((rules.parser levels q).run v).Keeps R)
    (hrule : ∀ label rule below, g = .defer label rule → levels = below + 1 →
      ∀ v, ((rules.parser below (rules rule)).run v).Keeps R)
    (hfunc : ∀ run, g = .func run → ∀ v, Step.Keeps R (run v)) (v : Verbosity) :
    ((rules.parser levels g).run v).Keeps R := by
  cases g with
  | tag name literal =>
    rw [parser_tag]
    exact Parser.keeps_map (Parser.keeps_tag hR name literal)
  | single name cls =>
    rw [parser_single]
    exact Parser.keeps_map (Parser.keeps_takeSingle hR name cls.accepts)
  | munch name cls =>
    rw [parser_munch]
    exact Parser.keeps_map (Parser.keeps_takeWhile hR name cls.accepts)
  | nothing =>
    rw [parser_nothing]
    exact Parser.keeps_map (Parser.keeps_nothing hR)
  | sequence parts =>
    rw [parser_sequence]
    exact Parser.keeps_map
      (Parser.keeps_sequence hR (List.forall_mem_map.mpr fun q hq => hparts q hq v))
  | choice alternatives =>
    rw [parser_choice]
    exact Parser.keeps_choice (List.forall_mem_map.mpr fun q hq => hparts q hq .terse)
  | pair first second =>
    rw [parser_pair]
    have hfirst := hparts first (by simp) v
    have hsecond := hparts second (by simp) v
    exact Parser.keeps_map (Parser.keeps_pair hR hfirst hsecond)
  | delimited before body behind =>
    rw [parser_delimited]
    have hbefore := hparts before (by simp) v
    have hbody := hparts body (by simp) v
    have hbehind := hparts behind (by simp) v
    exact Parser.keeps_delimited hR hbefore hbody hbehind
  | orDefault fallback body =>
    rw [parser_orDefault]
    exact Parser.keeps_orDefault hR (hparts body (by simp) .terse)
  | repeated bounds body =>
    rw [parser_repeated]
    have hbody := hparts body (by simp) v
    exact Parser.keeps_map (Parser.keeps_listOf hR hbody (Parser.keeps_nothing hR))
  | separated bounds body delimiter =>
    rw [parser_separated]
    have hbody := hparts body (by simp) v
    have hdelimiter := hparts delimiter (by simp) v
    exact Parser.keeps_map (Parser.keeps_listOf hR hbody hdelimiter)
  | named label body =>
    rw [parser_named]
    exact Parser.keeps_named (hparts body (by simp) v)
  | convert body f =>
    rw [parser_convert]
    exact Parser.keeps_convert (hparts body (by simp) v)
  | mapEach body f =>
    rw [parser_mapEach]
    have hbody := hparts body (by simp) v
    exact Parser.keeps_map (Parser.keeps_convert (Parser.keeps_map hbody))
  | replace value body =>
    rw [parser_replace]
    exact Parser.keeps_map (hparts body (by simp) v)
  | matchOnly body =>
    rw [parser_matchOnly]
    exact Parser.keeps_map (Parser.keeps_matchOnly (hparts body (by simp) v))
  | defer label rule =>
    rcases levels with _ | below
    · exact fun c x next h => absurd h (not_accepts_cutOff rules)
    · rw [parser_defer_succ]
      exact hrule label rule below rfl rfl v
  | func run =>
    rw [parser_func]
    exact hfunc run rfl v

/-- **Every success keeps a passage.**  Whatever relation is handed on from parts to wholes and is
kept by the functions in a grammar leads from the start to the end of its successes. -/
theorem keeps (hR : IsPassage R) (levels : Nat) (g : Grammar α κ ρ)
    (hfunc : ∀ run, rules.Contains g (.func run) → ∀ v, Step.Keeps R (run v)) (v : Verbosity) :
    ((rules.parser levels g).run v).Keeps R := by
  induction levels, g using Rules.induct_parts rules generalizing v with
  | step levels g ihParts ihRule =>
    refine rules.keeps_of_parts hR ?_ ?_ ?_ v
    · exact fun q hq v => ihParts q hq (fun run hrun => hfunc run (Reaches.part hq hrun)) v
    · rintro label rule below rfl rfl v
      exact ihRule label rule below rfl rfl (fun run hrun => hfunc run (Reaches.rule hrun)) v
    · rintro run rfl v
      exact hfunc run (Reaches.self _) v

/-- Without functions nothing has to be known. -/
theorem FuncFree.keeps {rules : Rules α κ ρ} (hR : IsPassage R) {levels : Nat} {g : Grammar α κ ρ}
    (hg : rules.FuncFree g) (v : Verbosity) : ((rules.parser levels g).run v).Keeps R :=
  rules.keeps hR levels g (fun run hrun => absurd hrun (hg run)) v

end Rules

/-- The errors that a parser of this name, started at the cursor, makes itself: an expectation of
its own, as fully as the caller asks, or at its start what a part expected or could not convert. -/
inductive ParseError.IsOwn (v : Verbosity) (name : String) (c : Cursor α) : ParseError α → Prop
  | mismatch : IsOwn v name c (.mismatch v name c)
  | relabelled : IsOwn v name c (.expected name c.loc)
  | unconverted (fault : Fault) : IsOwn v name c (.conversion name c.loc fault)

theorem ParseError.IsOwn.ne_trailingInput {v : Verbosity} {name : String} {c : Cursor α}
    {e : ParseError α} (h : e.IsOwn v name c) (loc : Location α) : e ≠ .trailingInput loc := by
  cases h with
  | mismatch => cases v <;> simp
  | relabelled => simp
  | unconverted fault => simp

namespace Rules

variable [DecidableEq α] (rules : Rules α κ ρ) {R : Cursor α → Cursor α → Prop}

/-- Where an error of a grammar comes from. -/
inductive Origin (R : Cursor α → Cursor α → Prop) (levels : Nat) (g : Grammar α κ ρ)
    (v : Verbosity) (c : Cursor α) (e : ParseError α) : Prop
  /-- It is the grammar's own. -/
  | own : e.IsOwn v (rules.parser levels g).name c → Origin R levels g v c e
  /-- It is that of a part, behind successes of parts. -/
  | part {q : Grammar α κ ρ} {c' : Cursor α} : q ∈ g.heard → R c c' →
    ((rules.parser levels q).run v).Rejects c' e → Origin R levels g v c e
  /-- It is that of the rule which the grammar refers to. -/
  | rule {label : String} {rule : ρ} {below : Nat} : g = .defer label rule → levels = below + 1 →
    ((rules.parser below (rules rule)).run v).Rejects c e → Origin R levels g v c e
  /-- It is that of the function which the grammar is. -/
  | func {run : Verbosity → Step α (Tree α κ)} : g = .func run →
    Step.Rejects (run v) c e → Origin R levels g v c e

/-- **Every error has an origin.** -/
theorem origin (hR : IsPassage R) {levels : Nat} {g : Grammar α κ ρ} {v : Verbosity}
    (hparts : ∀ q ∈ g.heard, ((rules.parser levels q).run v).Keeps R) {c : Cursor α}
    {e : ParseError α} (he : ((rules.parser levels g).run v).Rejects c e) :
    rules.Origin R levels g v c e := by
  -- A part with the same start and the same error.
  have hsame : ∀ q ∈ g.heard, ((rules.parser levels q).run v).Rejects c e →
      rules.Origin R levels g v c e :=
    fun q hq hreject => Origin.part hq (hR.refl c) hreject
  cases g with
  | tag name literal =>
    rw [parser_tag] at he
    obtain ⟨-, rfl⟩ := Parser.rejects_tag.mp (Parser.rejects_map.mp he)
    exact Origin.own ParseError.IsOwn.mismatch
  | single name cls =>
    rw [parser_single] at he
    obtain ⟨-, rfl⟩ := Parser.rejects_takeSingle.mp (Parser.rejects_map.mp he)
    exact Origin.own ParseError.IsOwn.mismatch
  | munch name cls =>
    rw [parser_munch] at he
    obtain ⟨-, rfl⟩ := Parser.rejects_takeWhile.mp (Parser.rejects_map.mp he)
    exact Origin.own ParseError.IsOwn.mismatch
  | nothing =>
    rw [parser_nothing] at he
    exact absurd (Parser.rejects_map.mp he) Parser.not_rejects_nothing
  | sequence parts =>
    rw [parser_sequence] at he
    have hkeeps : ∀ p ∈ parts.map (rules.parser levels), (p.run v).Keeps R :=
      List.forall_mem_map.mpr hparts
    obtain ⟨p, hp, c', hc', hreject⟩ := Parser.rejects_sequence hR hkeeps (Parser.rejects_map.mp he)
    obtain ⟨q, hq, rfl⟩ := List.mem_map.mp hp
    exact Origin.part hq hc' hreject
  | choice alternatives =>
    have hname : (rules.parser levels (.choice alternatives)).name =
        (Parser.choice (alternatives.map (rules.parser levels))).name := by rw [parser_choice]
    rw [parser_choice] at he
    obtain ⟨-, rfl⟩ := Parser.rejects_choice.mp he
    rw [← hname]
    exact Origin.own ParseError.IsOwn.mismatch
  | pair first second =>
    rw [parser_pair] at he
    rcases Parser.rejects_pair.mp (Parser.rejects_map.mp he) with hfirst | ⟨x, mid, hx, hsecond⟩
    · exact hsame first (by simp) hfirst
    · have hstep := hparts first (by simp) c x mid hx
      exact Origin.part (by simp) hstep hsecond
  | delimited before body behind =>
    rw [parser_delimited] at he
    rcases Parser.rejects_delimited.mp he with hbefore | ⟨x, mid, hx, he⟩
    · exact hsame before (by simp) hbefore
    · have hstep := hparts before (by simp) c x mid hx
      rcases he with hbody | ⟨y, last, hy, hbehind⟩
      · exact Origin.part (by simp) hstep hbody
      · have hstep' := hparts body (by simp) mid y last hy
        exact Origin.part (by simp) (hR.trans hstep hstep') hbehind
  | orDefault fallback body =>
    rw [parser_orDefault] at he
    exact absurd he Parser.not_rejects_orDefault
  | repeated bounds body =>
    have hbody := hparts body (by simp)
    rw [parser_repeated] at he
    rcases Parser.rejects_listOf hR hbody (Parser.keeps_nothing hR) (Parser.rejects_map.mp he)
      with rfl | ⟨c', hc', hreject | hreject⟩
    · exact Origin.own ParseError.IsOwn.mismatch
    · exact Origin.part (by simp) hc' hreject
    · exact absurd hreject Parser.not_rejects_nothing
  | separated bounds body delimiter =>
    have hbody := hparts body (by simp)
    have hdelimiter := hparts delimiter (by simp)
    rw [parser_separated] at he
    rcases Parser.rejects_listOf hR hbody hdelimiter (Parser.rejects_map.mp he)
      with rfl | ⟨c', hc', hreject | hreject⟩
    · exact Origin.own ParseError.IsOwn.mismatch
    · exact Origin.part (by simp) hc' hreject
    · exact Origin.part (by simp) hc' hreject
  | named label body =>
    rw [parser_named] at he
    obtain ⟨e', hreject, rfl⟩ := Parser.rejects_named.mp he
    cases e' with
    | expected name loc => exact Origin.own ParseError.IsOwn.relabelled
    | _ => exact hsame body (by simp) hreject
  | convert body f =>
    rw [parser_convert] at he
    rcases Parser.rejects_convert.mp he with hreject | ⟨x, next, fault, -, -, rfl⟩
    · exact hsame body (by simp) hreject
    · exact Origin.own (ParseError.IsOwn.unconverted fault)
  | mapEach body f =>
    rw [parser_mapEach] at he
    rcases Parser.rejects_convert.mp (Parser.rejects_map.mp he) with
      hreject | ⟨x, next, fault, -, -, rfl⟩
    · exact hsame body (by simp) (Parser.rejects_map.mp hreject)
    · exact Origin.own (ParseError.IsOwn.unconverted fault)
  | replace value body =>
    rw [parser_replace] at he
    exact hsame body (by simp) (Parser.rejects_map.mp he)
  | matchOnly body =>
    rw [parser_matchOnly] at he
    exact hsame body (by simp)
      (Parser.rejects_matchOnly.mp (Parser.rejects_map.mp he))
  | defer label rule =>
    rcases levels with _ | below
    · exact absurd he (not_rejects_cutOff rules)
    · rw [parser_defer_succ] at he
      exact Origin.rule rfl rfl he
  | func run =>
    rw [parser_func] at he
    exact Origin.func rfl he

end Rules

end Descent
