import Descent.Grammar.Shape
import Descent.Proofs.Consumption

/-!
# Grammars that lose nothing

Some grammars yield all that they read and nothing else, in order: those without delimiters,
converters and fixed outputs, whose optional parts yield no element when they are absent
(`Rules.Lossless`).  Their output, however deeply nested, reads as the span between the start and
the end of the parse (`Rules.lossless_reproduces_input`).

What the induction carries is that a tree records the way from one cursor to another
(`Tree.Records`).  Attempts that are given up leave no trace in it: a failed alternative has no
output, and where a list ends, be it at a failure or at an element that read nothing, it goes on
from the cursor behind its last entry.
-/

namespace Descent

variable {α κ ρ : Type}

/-! ## Trees that record a span -/

namespace Tree

theorem flatten_pair {first second : Tree α κ} {es es' : List α} (h : first.flatten = some es)
    (h' : second.flatten = some es') : (pair first second).flatten = some (es ++ es') := by
  rw [flatten, h, h']

theorem flatten_list_cons {t : Tree α κ} {ts : List (Tree α κ)} {es es' : List α}
    (h : t.flatten = some es) (h' : (list ts).flatten = some es') :
    (list (t :: ts)).flatten = some (es ++ es') := by
  rw [flatten_list] at h' ⊢
  rw [flattenAll, h, h']

/-- The tree holds the input between the two cursors, and the second one is onward of the first. -/
structure Records (t : Tree α κ) (c next : Cursor α) : Prop where
  onward : Onward c next
  flatten_eq : t.flatten = some (next.consumedSince c)

namespace Records

variable {t first second : Tree α κ} {ts : List (Tree α κ)} {c mid next : Cursor α}

/-- A tree without elements records that nothing was read. -/
theorem still (h : t.flatten = some []) (c : Cursor α) : t.Records c c := by
  refine ⟨isPassage_onward.refl c, ?_⟩
  rw [h, Cursor.consumedSince_self]

theorem nil (c : Cursor α) : (list [] : Tree α κ).Records c c :=
  still (by rw [flatten_list, flattenAll_nil]) c

theorem pair (h : first.Records c mid) (h' : second.Records mid next) :
    (Tree.pair first second).Records c next := by
  refine ⟨isPassage_onward.trans h.onward h'.onward, ?_⟩
  rw [flatten_pair h.flatten_eq h'.flatten_eq,
    Cursor.consumedSince_append_consumedSince h.onward.source_eq h'.onward.source_eq
      h.onward.position_le h'.onward.position_le]

theorem cons (h : t.Records c mid) (h' : (list ts).Records mid next) :
    (list (t :: ts)).Records c next := by
  refine ⟨isPassage_onward.trans h.onward h'.onward, ?_⟩
  rw [flatten_list_cons h.flatten_eq h'.flatten_eq,
    Cursor.consumedSince_append_consumedSince h.onward.source_eq h'.onward.source_eq
      h.onward.position_le h'.onward.position_le]

theorem span (h : Onward c next) :
    (Tree.span (next.consumedSince c) : Tree α κ).Records c next :=
  ⟨h, flatten_span _⟩

/-- A tree that holds the next elements of the input records moving past them. -/
theorem advance {es : List α} (h : es <+: c.remaining) (ht : t.flatten = some es) :
    t.Records c (c.advance es.length) := by
  have honward := isPassage_onward.advance c es.length
  have hspan := Cursor.consumedSince_append_remaining honward.source_eq honward.position_le
  obtain ⟨rest, hrest⟩ := h
  have hremaining : (c.advance es.length).remaining = rest := by
    rw [Cursor.remaining_advance, ← hrest, List.drop_left]
  rw [hremaining, ← hrest] at hspan
  refine ⟨honward, ?_⟩
  rw [ht, List.append_cancel_right hspan]

end Records

end Tree

/-- Every output of the step records what was read for it. -/
def Step.Records (s : Step α (Tree α κ)) : Prop :=
  ∀ c t next, s.Accepts c t next → t.Records c next

/-! ## Lists -/

section Lists

variable {p : Parser α (Tree α κ)} {v : Verbosity} {c next : Cursor α}

namespace Repetition

variable {links : List (Tree α κ × Cursor α)} {stop : Option (ParseError α)}

theorem Iterates.records (hp : Step.Records (p.run v)) {t : Tree α κ}
    (h : Iterates p Parser.nothing v c t next) : t.Records c next := by
  obtain ⟨y, mid, hy, ht⟩ := h
  rw [Parser.accepts_nothing.mp hy] at ht
  exact hp c t next ht

/-- The iteration that ends a list by reading nothing is not among its links, and its end is not
where the list ends. -/
theorem Rest.records (hp : Step.Records (p.run v)) {room : Option Nat}
    (h : Rest p Parser.nothing v room c links stop) :
    (Tree.list (links.map Prod.fst)).Records c (endOf c links) := by
  induction h with
  | full c => exact Tree.Records.nil c
  | @broken room c e _ _ => exact Tree.Records.nil c
  | @idle c next x _ _ => exact Tree.Records.nil c
  | counted hiter _ ih => exact (hiter.records hp).cons ih
  | moved hiter _ _ ih => exact (hiter.records hp).cons ih

theorem Collects.records (hp : Step.Records (p.run v)) {greatest : Option Nat}
    (h : Collects p Parser.nothing v greatest c links stop) :
    (Tree.list (links.map Prod.fst)).Records c (endOf c links) := by
  cases h with
  | none => exact Tree.Records.nil c
  | broken => exact Tree.Records.nil c
  | @more mid t links stop _ ht hrest => exact (hp c t mid ht).cons (hrest.records hp)

end Repetition

namespace Parser

theorem records_listOf (hp : Step.Records (p.run v)) {name : String} {spare : Nat}
    {bounds : Bounds} {ts : List (Tree α κ)}
    (h : ((listOf name spare bounds p nothing).run v).Accepts c ts next) :
    (Tree.list ts).Records c next := by
  obtain ⟨links, stop, hcollects, -, rfl, rfl⟩ := Repetition.accepts_listOf h
  exact hcollects.records hp

theorem records_sequence {ps : List (Parser α (Tree α κ))}
    (hps : ∀ p ∈ ps, Step.Records (p.run v)) {ts : List (Tree α κ)}
    (h : ((sequence ps).run v).Accepts c ts next) : (Tree.list ts).Records c next := by
  induction ps generalizing c ts with
  | nil =>
    obtain ⟨rfl, rfl⟩ := accepts_sequence_nil.mp h
    exact Tree.Records.nil _
  | cons p ps ih =>
    obtain ⟨t, mid, ts', ht, hts', rfl⟩ := accepts_sequence_cons.mp h
    have hfirst := hps p List.mem_cons_self c t mid ht
    exact hfirst.cons (ih (fun q hq => hps q (List.mem_cons_of_mem p hq)) hts')

end Parser

end Lists

/-! ## Grammars -/

/-- The grammar adds nothing to the outputs of its parts and drops none of them. -/
def Grammar.IsVerbatim : Grammar α κ ρ → Prop
  | .tag _ _ | .single _ _ | .munch _ _ | .nothing => True
  | .sequence _ | .choice _ | .pair _ _ | .repeated _ _ => True
  | .named _ _ | .matchOnly _ | .defer _ _ => True
  | .orDefault fallback _ => fallback.flatten = some []
  | .delimited _ _ _ | .separated _ _ _ => False
  | .convert _ _ | .mapEach _ _ | .replace _ _ | .func _ => False

/-- Of the kinds of output only single elements have a fallback with an element in it. -/
theorem Grammar.isVerbatim_optional [Element α] (body : Grammar α κ ρ) :
    (optional body).IsVerbatim ↔ body.shape ≠ .elem := by
  unfold optional IsVerbatim
  cases body.shape with
  | pair => simp [Shape.fallback, Tree.flatten_pair (Tree.flatten_absent) (Tree.flatten_absent)]
  | _ => simp [Shape.fallback]

namespace Rules

/-- Everything that a grammar is made of is verbatim. -/
def Lossless (rules : Rules α κ ρ) (g : Grammar α κ ρ) : Prop :=
  ∀ q, rules.Contains g q → q.IsVerbatim

variable {rules : Rules α κ ρ} {g q : Grammar α κ ρ}

theorem Lossless.part (h : rules.Lossless g) (hq : q ∈ g.parts) : rules.Lossless q :=
  fun found hfound => h found (Reaches.part hq hfound)

theorem Lossless.rule {label : String} {rule : ρ} (h : rules.Lossless (.defer label rule)) :
    rules.Lossless (rules rule) :=
  fun found hfound => h found (Reaches.rule hfound)

theorem Lossless.isVerbatim (h : rules.Lossless g) : g.IsVerbatim :=
  h g (Reaches.self g)

/-- What can be listed with all its parts and rules is lossless if every member of the list is
verbatim. -/
theorem lossless_of_closed (members : List (Grammar α κ ρ)) (hg : g ∈ members)
    (hparts : ∀ q ∈ members, ∀ part ∈ q.parts, part ∈ members)
    (hrules : ∀ label rule, .defer label rule ∈ members → rules rule ∈ members)
    (hverbatim : ∀ q ∈ members, q.IsVerbatim) : rules.Lossless g :=
  fun _ hq => hverbatim _ (hq.closed hparts hrules hg)

variable [DecidableEq α]

/-- Every output of a lossless grammar records what was read for it. -/
theorem Lossless.records {levels : Nat} (hg : rules.Lossless g) (v : Verbosity) :
    Step.Records ((rules.parser levels g).run v) := by
  induction levels, g using Rules.induct rules generalizing v with
  | tag levels name literal =>
    intro c t next h
    rw [parser_tag] at h
    obtain ⟨es, hes, rfl⟩ := Parser.accepts_map.mp h
    obtain ⟨hliteral, rfl, rfl⟩ := Parser.accepts_tag.mp hes
    exact Tree.Records.advance hliteral (Tree.flatten_span es)
  | single levels name cls =>
    intro c t next h
    rw [parser_single] at h
    obtain ⟨e, he, rfl⟩ := Parser.accepts_map.mp h
    obtain ⟨hvalue, -, rfl⟩ := Parser.accepts_takeSingle.mp he
    have hfirst : [e] <+: c.remaining := by
      obtain ⟨rest, hrest⟩ := List.head?_eq_some_iff.mp hvalue
      exact ⟨rest, hrest.symm⟩
    exact Tree.Records.advance hfirst (Tree.flatten_elem e)
  | munch levels name cls =>
    intro c t next h
    rw [parser_munch] at h
    obtain ⟨es, hes, rfl⟩ := Parser.accepts_map.mp h
    obtain ⟨hrun, -, rfl⟩ := Parser.accepts_takeWhile.mp hes
    have hfirst : es <+: c.remaining := by
      rw [hrun]
      exact List.takeWhile_prefix _
    exact Tree.Records.advance hfirst (Tree.flatten_span es)
  | nothing levels =>
    intro c t next h
    rw [parser_nothing] at h
    obtain ⟨u, hu, rfl⟩ := Parser.accepts_map.mp h
    rw [Parser.accepts_nothing.mp hu]
    exact Tree.Records.still Tree.flatten_unit c
  | sequence levels parts ih =>
    intro c t next h
    rw [parser_sequence] at h
    obtain ⟨ts, hts, rfl⟩ := Parser.accepts_map.mp h
    exact Parser.records_sequence
      (List.forall_mem_map.mpr fun q hq => ih q hq (hg.part hq) v) hts
  | choice levels alternatives ih =>
    intro c t next h
    rw [parser_choice] at h
    obtain ⟨before, p, behind, hsplit, -, hp⟩ := Parser.accepts_choice.mp h
    have hmem : p ∈ alternatives.map (rules.parser levels) := by
      rw [hsplit]
      simp
    obtain ⟨q, hq, rfl⟩ := List.mem_map.mp hmem
    exact ih q hq (hg.part hq) .terse c t next hp
  | pair levels first second ihFirst ihSecond =>
    intro c t next h
    rw [parser_pair] at h
    obtain ⟨z, hz, rfl⟩ := Parser.accepts_map.mp h
    obtain ⟨x, mid, y, hx, hy, rfl⟩ := Parser.accepts_pair.mp hz
    have hfirst := ihFirst (hg.part (by simp)) v c x mid hx
    have hsecond := ihSecond (hg.part (by simp)) v mid y next hy
    exact hfirst.pair hsecond
  | orDefault levels fallback body ih =>
    intro c t next h
    rw [parser_orDefault] at h
    rcases Parser.accepts_orDefault.mp h with hbody | ⟨-, rfl, rfl⟩
    · exact ih (hg.part (by simp)) .terse c t next hbody
    · exact Tree.Records.still hg.isVerbatim _
  | repeated levels bounds body ih =>
    intro c t next h
    rw [parser_repeated] at h
    obtain ⟨ts, hts, rfl⟩ := Parser.accepts_map.mp h
    exact Parser.records_listOf (ih (hg.part (by simp)) v) hts
  | named levels label body ih =>
    intro c t next h
    rw [parser_named] at h
    exact ih (hg.part (by simp)) v c t next (Parser.accepts_named.mp h)
  | matchOnly levels body ih =>
    intro c t next h
    rw [parser_matchOnly] at h
    obtain ⟨es, hes, rfl⟩ := Parser.accepts_map.mp h
    obtain ⟨x, hx, rfl⟩ := Parser.accepts_matchOnly.mp hes
    exact Tree.Records.span (ih (hg.part (by simp)) v c x next hx).onward
  | cutOff label rule => exact fun c t next h => absurd h (not_accepts_cutOff rules)
  | defer levels label rule ih =>
    rw [parser_defer_succ]
    exact ih hg.rule v
  | delimited => exact hg.isVerbatim.elim
  | separated => exact hg.isVerbatim.elim
  | convert => exact hg.isVerbatim.elim
  | mapEach => exact hg.isVerbatim.elim
  | replace => exact hg.isVerbatim.elim
  | func => exact hg.isVerbatim.elim

/-- **Lossless grammars reproduce their input.**  Whatever a lossless grammar yields, at either
verbosity and from any cursor, its elements from left to right are the span between the start and
the end. -/
theorem lossless_reproduces_input (rules : Rules α κ ρ) (g : Grammar α κ ρ)
    (hg : rules.Lossless g) (v : Verbosity) (c next : Cursor α) (t : Tree α κ)
    (h : rules.Yields g v c (.ok (t, next))) : t.flatten = some (next.consumedSince c) := by
  obtain ⟨levels, h⟩ := h
  exact (hg.records v c t next h).flatten_eq

/-- Text in parentheses, with more of the same inside. -/
def group : Grammar Char Unit Unit :=
  .sequence [.tag "OPEN" ['('], .defer "BALANCED" (), .tag "CLOSE" [')']]

/-- Text without parentheses, possibly empty. -/
def plainText : Grammar Char Unit Unit :=
  .orDefault (.span []) (.munch "TEXT" (.noneOf ['(', ')']))

/-- Text in which parentheses are balanced. -/
def balanced : Rules Char Unit Unit := fun _ =>
  .repeated .any (.choice [group, plainText])

/-- In `x)a(b)c)`, read from the third character on, the last parenthesis is left over.  At that
place, and before the one that closes, an element that reads nothing ends the list. -/
theorem balanced_reproduces_input :
    balanced.Lossless (.defer "BALANCED" ()) ∧
      balanced.Yields (.defer "BALANCED" ()) .verbose
        ((Cursor.new ['x', ')', 'a', '(', 'b', ')', 'c', ')']).advance 2)
        (.ok (.list [.span ['a'], .list [.span ['('], .list [.span ['b']], .span [')']],
            .span ['c']],
          .valid ['x', ')', 'a', '(', 'b', ')', 'c', ')'] 7)) ∧
      (Tree.list [.span ['a'], .list [.span ['('], .list [.span ['b']], .span [')']],
          .span ['c']] : Tree Char Unit).flatten = some ['a', '(', 'b', ')', 'c'] := by
  have hlossless : balanced.Lossless (.defer "BALANCED" ()) := by
    refine lossless_of_closed [.defer "BALANCED" (), balanced (), .choice [group, plainText], group,
      plainText, .tag "OPEN" ['('], .tag "CLOSE" [')'], .munch "TEXT" (.noneOf ['(', ')'])]
      ?_ ?_ ?_ ?_
    all_goals simp [balanced, group, plainText, Grammar.IsVerbatim]
  have hyields : balanced.Yields (.defer "BALANCED" ()) .verbose
      ((Cursor.new ['x', ')', 'a', '(', 'b', ')', 'c', ')']).advance 2)
      (.ok (.list [.span ['a'], .list [.span ['('], .list [.span ['b']], .span [')']], .span ['c']],
        .valid ['x', ')', 'a', '(', 'b', ')', 'c', ')'] 7)) := ⟨3, rfl⟩
  exact ⟨hlossless, hyields, balanced.lossless_reproduces_input _ hlossless _ _ _ _ hyields⟩

end Rules

end Descent
