import Descent.Proofs.Alike

/-!
# Comparisons read backwards

A simulation that is not lossy says that the second parse comes to its end if the first does.  The
other direction does not follow from the relation between runs, because a run that is cut off is
related to every run.  It follows if the comparison can be turned round: corresponding cursors have
to leave equally much to read, so that the loops of either parse have room for the rounds of the
other (`Simulation.flip`), and everything else in a comparison of grammars of one form is symmetric.

* `Rules.returns_iff_of_alike`: of two grammars of one form, either both come to a result or neither
  does.
-/

namespace Descent

variable {α α' κ κ' ρ : Type}

theorem Agree.flip {ε ε' β β' : Type} {Re : ε → ε' → Prop} {Rx : β → β' → Prop} {r : Except ε β}
    {r' : Except ε' β'} (h : Agree Re Rx r r') :
    Agree (fun e' e => Re e e') (fun x' x => Rx x x') r' r := by
  cases h with
  | ok hx => exact Agree.ok hx
  | error he => exact Agree.error he

theorem rel_flip {ι ι' : Type} {R : ι → ι' → Prop} {x : Option ι} {x' : Option ι'}
    (h : Option.Rel R x x') : Option.Rel (fun i' i => R i i') x' x := by
  cases h with
  | none => exact Option.Rel.none
  | some hx => exact Option.Rel.some hx

/-- Lists that compare member by member have a counterpart for every member of the second. -/
theorem exists_of_mem_right {ι ι' : Type} {R : ι → ι' → Prop} {l : List ι} {l' : List ι'}
    (h : List.Forall₂ R l l') {i' : ι'} (hi' : i' ∈ l') : ∃ i ∈ l, R i i' := by
  induction h with
  | nil => exact absurd hi' List.not_mem_nil
  | @cons i₀ i₀' l l' hi _ ih =>
    rcases List.mem_cons.mp hi' with rfl | hi'
    · exact ⟨i₀, List.mem_cons_self, hi⟩
    · obtain ⟨i, hmem, hR⟩ := ih hi'
      exact ⟨i, List.mem_cons_of_mem i₀ hmem, hR⟩

/-- The comparison with the two parses exchanged. -/
def Simulation.flip (S : Simulation α α')
    (hroom : ∀ {c : Cursor α} {c' : Cursor α'}, S.cursor c c' → c'.left ≤ c.left) :
    Simulation α' α where
  cursor c' c := S.cursor c c'
  events later earlier := S.events earlier later
  lossy := False
  events_nil := S.events_nil
  events_append h h' := S.events_append h h'
  still h h' := (S.still h h').symm
  room h := Or.inr (hroom h)

/-! ## Counterparts -/

namespace Counterparts

variable {M : Counterparts α α' κ κ'} {S : Simulation α α'}
  {At : Location α → Location α' → Prop}

/-- What may stand for each other, with the two grammars exchanged. -/
def flip (M : Counterparts α α' κ κ') : Counterparts α' α κ' κ where
  literal es' es := M.literal es es'
  single test' test := M.single test test'
  munch test' test := M.munch test test'
  output t' t := M.output t t'
  converter f' f := M.converter f f'

theorem Sound.flip (hM : M.Sound S At)
    (hroom : ∀ {c : Cursor α} {c' : Cursor α'}, S.cursor c c' → c'.left ≤ c.left) :
    M.flip.Sound (S.flip hroom) (fun loc' loc => At loc loc') where
  events _ _ := hM.events _ _
  loc hc := hM.loc hc
  literal h hc := by
    obtain ⟨hiff, hstands⟩ := hM.literal h hc
    exact ⟨hiff.symm, fun hprefix => hstands (hiff.mpr hprefix)⟩
  single h hc := rel_flip (hM.single h hc)
  munch h hc := by
    obtain ⟨hnil, hspan, hcursor⟩ := hM.munch h hc
    exact ⟨hnil.symm, hspan, hcursor⟩
  span hc hnext := hM.span hc hnext
  unit := hM.unit
  list h := hM.list h.flip
  pair hfirst hsecond := hM.pair hfirst hsecond
  entries h := (hM.entries h).flip
  converter h t' t ht := (hM.converter h t t' ht).flip.imp (fun _ _ he => he.symm) fun _ _ hx => hx

end Counterparts

/-! ## Grammars -/

variable [DecidableEq α] [DecidableEq α'] {M : Counterparts α α' κ κ'}

namespace Grammar.Alike

variable {g : Grammar α κ ρ} {g' q' : Grammar α' κ' ρ}

theorem flip (h : g.Alike M g') : g'.Alike M.flip g := by
  have hlist : ∀ {gs : List (Grammar α κ ρ)} {gs' : List (Grammar α' κ' ρ)},
      List.Forall₂ (Alike M) gs gs' → (∀ g ∈ gs, ∀ g', g.Alike M g' → g'.Alike M.flip g) →
      List.Forall₂ (Alike M.flip) gs' gs := by
    intro gs gs' hgs ih
    have hflipped := ((List.forall₂_and_left _ _).mpr ⟨ih, hgs⟩).imp fun g g' h => h.1 g' h.2
    exact hflipped.flip
  induction g using Grammar.induct generalizing g' with
  | tag name literal =>
    cases h with
    | tag _ hliteral => exact Alike.tag name hliteral
  | single name cls =>
    cases h with
    | single _ hsingle => exact Alike.single name hsingle
  | munch name cls =>
    cases h with
    | munch _ hmunch => exact Alike.munch name hmunch
  | nothing =>
    cases h
    exact Alike.nothing
  | sequence parts ih =>
    cases h with
    | sequence hparts => exact Alike.sequence (hlist hparts fun q hq q' h => ih q hq h)
  | choice alternatives ih =>
    cases h with
    | choice hparts => exact Alike.choice (hlist hparts fun q hq q' h => ih q hq h)
  | pair first second ihFirst ihSecond =>
    cases h with
    | pair hfirst hsecond => exact Alike.pair (ihFirst hfirst) (ihSecond hsecond)
  | delimited before body behind ihBefore ihBody ihBehind =>
    cases h with
    | delimited hbefore hbody hbehind =>
      exact Alike.delimited (ihBefore hbefore) (ihBody hbody) (ihBehind hbehind)
  | orDefault fallback body ih =>
    cases h with
    | orDefault hfallback hbody => exact Alike.orDefault hfallback (ih hbody)
  | repeated bounds body ih =>
    cases h with
    | repeated _ hbody => exact Alike.repeated bounds (ih hbody)
  | separated bounds body delimiter ihBody ihDelimiter =>
    cases h with
    | separated _ hbody hdelimiter =>
      exact Alike.separated bounds (ihBody hbody) (ihDelimiter hdelimiter)
  | named label body ih =>
    cases h with
    | named _ hbody => exact Alike.named label (ih hbody)
  | convert body f ih =>
    cases h with
    | convert hbody hf => exact Alike.convert (ih hbody) hf
  | mapEach body f ih =>
    cases h with
    | mapEach hbody hf => exact Alike.mapEach (ih hbody) hf
  | replace value body ih =>
    cases h with
    | replace hvalue hbody => exact Alike.replace hvalue (ih hbody)
  | matchOnly body ih =>
    cases h with
    | matchOnly hbody => exact Alike.matchOnly (ih hbody)
  | defer label rule =>
    cases h
    exact Alike.defer label rule
  | func run => cases h

/-- Grammars of one form have parts of one form. -/
theorem parts (h : g.Alike M g') : List.Forall₂ (Alike M) g.parts g'.parts := by
  cases h with
  | sequence hparts => exact hparts
  | choice hparts => exact hparts
  | pair hfirst hsecond => exact .cons hfirst (.cons hsecond .nil)
  | delimited hbefore hbody hbehind => exact .cons hbefore (.cons hbody (.cons hbehind .nil))
  | separated _ hbody hdelimiter => exact .cons hbody (.cons hdelimiter .nil)
  | orDefault _ hbody => exact .cons hbody .nil
  | repeated _ hbody => exact .cons hbody .nil
  | named _ hbody => exact .cons hbody .nil
  | convert hbody _ => exact .cons hbody .nil
  | mapEach hbody _ => exact .cons hbody .nil
  | replace _ hbody => exact .cons hbody .nil
  | matchOnly hbody => exact .cons hbody .nil
  | tag | single | munch | nothing | defer => exact .nil

end Grammar.Alike

namespace Rules

variable {rules : Rules α κ ρ} {rules' : Rules α' κ' ρ} {g : Grammar α κ ρ}
  {g' found' : Grammar α' κ' ρ}

/-- Whatever is found in the second of two grammars of one form has its like in the first. -/
theorem Alike.exists_of_contains (h : Alike M rules rules' g g')
    (hfound : rules'.Contains g' found') :
    ∃ found, rules.Contains g found ∧ found.Alike M found' := by
  induction hfound generalizing g with
  | self g' => exact ⟨g, Reaches.self g, h.grammar⟩
  | part hq' _ ih =>
    obtain ⟨q, hq, hqq'⟩ := exists_of_mem_right h.grammar.parts hq'
    obtain ⟨found, hfound, halike⟩ := ih (h.part hq hqq')
    exact ⟨found, Reaches.part hq hfound, halike⟩
  | @rule label rule _ _ ih =>
    have hgrammar := h.grammar
    cases hgrammar with
    | defer =>
      obtain ⟨found, hfound, halike⟩ := ih h.referred
      exact ⟨found, Reaches.rule hfound, halike⟩

theorem Alike.flip (h : Alike M rules rules' g g') : Alike M.flip rules' rules g' g where
  grammar := h.grammar.flip
  rule label rule hrule := by
    obtain ⟨found, hfound, halike⟩ := h.exists_of_contains hrule
    cases halike with
    | defer => exact (h.rule label rule hfound).flip

/-- **Grammars of one form come to a result together.** -/
theorem returns_iff_of_alike {S : Simulation α α'} {At : Location α → Location α' → Prop}
    (hM : M.Sound S At) (h : Alike M rules rules' g g') (hlossy : ¬ S.lossy)
    (hroom : ∀ {c : Cursor α} {c' : Cursor α'}, S.cursor c c' → c'.left ≤ c.left)
    {v : Verbosity} {c : Cursor α} {c' : Cursor α'} (hc : S.cursor c c') :
    (∃ r, rules.Yields g v c r) ↔ ∃ r', rules'.Yields g' v c' r' := by
  constructor
  · rintro ⟨r, hr⟩
    exact returns_of_alike hM h hlossy hc hr
  · rintro ⟨r', hr'⟩
    exact returns_of_alike (hM.flip hroom) h.flip not_false hc hr'

end Rules

end Descent
