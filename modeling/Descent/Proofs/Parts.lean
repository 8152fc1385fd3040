import Descent.Proofs.Levels

/-!
# What is inside a grammar

A grammar stands on its parts and, where it refers to a rule, on that rule.  Statements about
whole grammars quantify over all that can be found this way (`Rules.Contains`).  Not all of it is
heard of: the parts of a choice and of an optional part always run tersely, and their errors are
dropped.  What is left when these are not entered is what a caller can hear of (`Rules.Exposes`).

* `Rules.FuncFree` says that no function is found in a grammar.
* `Rules.induct_parts` is induction along parts and references, for arguments that treat all
  constructors alike.
-/

namespace Descent

variable {α κ ρ : Type}

namespace Grammar

/-- The grammars directly inside a grammar, in order. -/
@[simp] def parts : Grammar α κ ρ → List (Grammar α κ ρ)
  | .sequence parts => parts
  | .choice alternatives => alternatives
  | .pair first second => [first, second]
  | .delimited before body behind => [before, body, behind]
  | .orDefault _ body => [body]
  | .repeated _ body => [body]
  | .separated _ body delimiter => [body, delimiter]
  | .named _ body => [body]
  | .convert body _ => [body]
  | .mapEach body _ => [body]
  | .replace _ body => [body]
  | .matchOnly body => [body]
  | .tag _ _ | .single _ _ | .munch _ _ | .nothing | .defer _ _ | .func _ => []

/-- The parts that run at the verbosity of the whole and whose errors may become its errors. -/
@[simp] def heard : Grammar α κ ρ → List (Grammar α κ ρ)
  | .choice _ | .orDefault _ _ => []
  | g => g.parts

theorem mem_parts_of_mem_heard {g q : Grammar α κ ρ} (h : q ∈ g.heard) : q ∈ g.parts := by
  cases g with
  | choice => exact absurd h List.not_mem_nil
  | orDefault => exact absurd h List.not_mem_nil
  | _ => exact h

mutual

/-- Whether a function is found in the grammar, without following references. -/
def hasFunc : Grammar α κ ρ → Bool
  | .tag _ _ | .single _ _ | .munch _ _ | .nothing | .defer _ _ => false
  | .sequence parts => anyFunc parts
  | .choice alternatives => anyFunc alternatives
  | .pair first second => hasFunc first || hasFunc second
  | .delimited before body behind => hasFunc before || hasFunc body || hasFunc behind
  | .orDefault _ body => hasFunc body
  | .repeated _ body => hasFunc body
  | .separated _ body delimiter => hasFunc body || hasFunc delimiter
  | .named _ body => hasFunc body
  | .convert body _ => hasFunc body
  | .mapEach body _ => hasFunc body
  | .replace _ body => hasFunc body
  | .matchOnly body => hasFunc body
  | .func _ => true

/-- Whether a function is found in any of the grammars. -/
def anyFunc : List (Grammar α κ ρ) → Bool
  | [] => false
  | g :: gs => hasFunc g || anyFunc gs

end

theorem anyFunc_eq_any (gs : List (Grammar α κ ρ)) : anyFunc gs = gs.any hasFunc := by
  induction gs with
  | nil => rfl
  | cons g gs ih => rw [anyFunc, ih, List.any_cons]

theorem hasFunc_eq_false_of_mem_parts {g q : Grammar α κ ρ} (hq : q ∈ g.parts)
    (hg : g.hasFunc = false) : q.hasFunc = false := by
  have hlist : ∀ gs : List (Grammar α κ ρ), anyFunc gs = false → q ∈ gs → q.hasFunc = false := by
    intro gs hgs hq
    rw [anyFunc_eq_any, List.any_eq_false] at hgs
    exact Bool.eq_false_iff.mpr (hgs q hq)
  cases g with
  | sequence parts => exact hlist parts hg hq
  | choice alternatives => exact hlist alternatives hg hq
  | pair first second => exact hlist [first, second] (by simpa [anyFunc, hasFunc] using hg) hq
  | delimited before body behind =>
    exact hlist [before, body, behind] (by simpa [anyFunc, hasFunc, and_assoc] using hg) hq
  | separated bounds body delimiter =>
    exact hlist [body, delimiter] (by simpa [anyFunc, hasFunc] using hg) hq
  | orDefault fallback body => exact hlist [body] (by simpa [anyFunc, hasFunc] using hg) hq
  | repeated bounds body => exact hlist [body] (by simpa [anyFunc, hasFunc] using hg) hq
  | named label body => exact hlist [body] (by simpa [anyFunc, hasFunc] using hg) hq
  | convert body f => exact hlist [body] (by simpa [anyFunc, hasFunc] using hg) hq
  | mapEach body f => exact hlist [body] (by simpa [anyFunc, hasFunc] using hg) hq
  | replace value body => exact hlist [body] (by simpa [anyFunc, hasFunc] using hg) hq
  | matchOnly body => exact hlist [body] (by simpa [anyFunc, hasFunc] using hg) hq
  | _ => exact absurd hq List.not_mem_nil

end Grammar

namespace Rules

/-- The grammar itself, and what is found by going to inner grammars and from references to their
rules. -/
inductive Reaches (rules : Rules α κ ρ) (inner : Grammar α κ ρ → List (Grammar α κ ρ)) :
    Grammar α κ ρ → Grammar α κ ρ → Prop
  | self (g : Grammar α κ ρ) : Reaches rules inner g g
  | part {g q found : Grammar α κ ρ} :
    q ∈ inner g → Reaches rules inner q found → Reaches rules inner g found
  | rule {label : String} {rule : ρ} {found : Grammar α κ ρ} :
    Reaches rules inner (rules rule) found → Reaches rules inner (.defer label rule) found

/-- What holds of a grammar and is handed on to inner grammars and to rules holds of all that is
found. -/
theorem Reaches.closed {rules : Rules α κ ρ} {inner : Grammar α κ ρ → List (Grammar α κ ρ)}
    {P : Grammar α κ ρ → Prop} (hinner : ∀ g, P g → ∀ q ∈ inner g, P q)
    (hrule : ∀ label rule, P (.defer label rule) → P (rules rule)) {g found : Grammar α κ ρ}
    (hg : P g) (h : rules.Reaches inner g found) : P found := by
  induction h with
  | self g => exact hg
  | part hq _ ih => exact ih (hinner _ hg _ hq)
  | rule _ ih => exact ih (hrule _ _ hg)

/-- What a grammar is made of: itself, its parts at any depth, and the rules it refers to. -/
def Contains (rules : Rules α κ ρ) : Grammar α κ ρ → Grammar α κ ρ → Prop :=
  rules.Reaches Grammar.parts

/-- What a caller of the grammar can hear of; nothing below a choice or an optional part. -/
def Exposes (rules : Rules α κ ρ) : Grammar α κ ρ → Grammar α κ ρ → Prop :=
  rules.Reaches Grammar.heard

/-- No function is found in the grammar or in the rules it refers to. -/
def FuncFree (rules : Rules α κ ρ) (g : Grammar α κ ρ) : Prop :=
  ∀ run, ¬ rules.Contains g (.func run)

variable {rules : Rules α κ ρ} {g q : Grammar α κ ρ}

theorem Exposes.contains (h : rules.Exposes g q) : rules.Contains g q := by
  induction h with
  | self g => exact Reaches.self g
  | part hq _ ih => exact Reaches.part (Grammar.mem_parts_of_mem_heard hq) ih
  | rule _ ih => exact Reaches.rule ih

theorem FuncFree.part (h : rules.FuncFree g) (hq : q ∈ g.parts) : rules.FuncFree q :=
  fun run hrun => h run (Reaches.part hq hrun)

theorem FuncFree.rule {label : String} {rule : ρ} (h : rules.FuncFree (.defer label rule)) :
    rules.FuncFree (rules rule) :=
  fun run hrun => h run (Reaches.rule hrun)

theorem FuncFree.found (h : rules.FuncFree g) (hq : rules.Contains g q) : rules.FuncFree q :=
  hq.closed (P := rules.FuncFree) (fun _ hg _ hq => hg.part hq) (fun _ _ hg => hg.rule) h

/-- Where neither the grammar nor any rule has a function, none is found. -/
theorem funcFree_of_hasFunc (hg : g.hasFunc = false)
    (hrules : ∀ rule, (rules rule).hasFunc = false) : rules.FuncFree g := by
  intro run hrun
  have hfound : (Grammar.func run : Grammar α κ ρ).hasFunc = false :=
    hrun.closed (fun _ hg _ hq => Grammar.hasFunc_eq_false_of_mem_parts hq hg)
      (fun _ rule _ => hrules rule) hg
  exact absurd hfound (by simp [Grammar.hasFunc])

theorem not_funcFree_func (run : Verbosity → Step α (Tree α κ)) : ¬ rules.FuncFree (.func run) :=
  fun h => h run (Reaches.self _)

/-- Induction on levels and grammars, with the hypothesis for all parts of the grammar and, if it
is a reference, for its rule at the level below. -/
theorem induct_parts (rules : Rules α κ ρ) {motive : Nat → Grammar α κ ρ → Prop}
    (step : ∀ levels g, (∀ q ∈ g.parts, motive levels q) →
      (∀ label rule below, g = .defer label rule → levels = below + 1 →
        motive below (rules rule)) → motive levels g) (levels : Nat) (g : Grammar α κ ρ) :
    motive levels g := by
  have hplain : ∀ levels g, (∀ q ∈ Grammar.parts g, motive levels q) →
      (∀ label rule, g ≠ .defer label rule) → motive levels g := by
    intro levels g hparts hg
    exact step levels g hparts fun label rule _ h => absurd h (hg label rule)
  induction levels, g using Rules.induct rules with
  | tag levels name literal => exact hplain _ _ (by simp) (by simp)
  | single levels name cls => exact hplain _ _ (by simp) (by simp)
  | munch levels name cls => exact hplain _ _ (by simp) (by simp)
  | nothing levels => exact hplain _ _ (by simp) (by simp)
  | sequence levels parts ih => exact hplain _ _ ih (by simp)
  | choice levels alternatives ih => exact hplain _ _ ih (by simp)
  | pair levels first second ihFirst ihSecond =>
    exact hplain _ _ (by simp [ihFirst, ihSecond]) (by simp)
  | delimited levels before body behind ihBefore ihBody ihBehind =>
    exact hplain _ _ (by simp [ihBefore, ihBody, ihBehind]) (by simp)
  | orDefault levels fallback body ih => exact hplain _ _ (by simp [ih]) (by simp)
  | repeated levels bounds body ih => exact hplain _ _ (by simp [ih]) (by simp)
  | separated levels bounds body delimiter ihBody ihDelimiter =>
    exact hplain _ _ (by simp [ihBody, ihDelimiter]) (by simp)
  | named levels label body ih => exact hplain _ _ (by simp [ih]) (by simp)
  | convert levels body f ih => exact hplain _ _ (by simp [ih]) (by simp)
  | mapEach levels body f ih => exact hplain _ _ (by simp [ih]) (by simp)
  | replace levels value body ih => exact hplain _ _ (by simp [ih]) (by simp)
  | matchOnly levels body ih => exact hplain _ _ (by simp [ih]) (by simp)
  | cutOff label rule =>
    refine step 0 _ (by simp) ?_
    exact fun _ _ below _ h => absurd h (Nat.zero_ne_add_one below)
  | defer levels label rule ih =>
    refine step _ _ (by simp) ?_
    rintro _ _ below ⟨⟩ ⟨⟩
    exact ih
  | func levels run => exact hplain _ _ (by simp) (by simp)

end Rules

end Descent
