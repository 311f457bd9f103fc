import TableLineage.Proofs.Formula.Written
import TableLineage.Proofs.Statement.Ready

/-! Levels whose operators chain: an operand, and links of an operator and what it takes, each
applied to all that stands before it. A chain is read the same whatever links still follow it. -/
namespace TableLineage

open List
open Grammar (Symbol Look Step Part)

variable {p : Symbol.Production} {e : Formula .single}

namespace Level

/-- What follows `IS` and maybe `NOT`. -/
def test : Symbol.Production :=
  .branch (Look.isAnyKey [.NULL, .TRUE, .FALSE, .UNKNOWN]) .take
    (.branch (Look.isKey .DISTINCT) (Part.all [.take, Part.key .FROM, .call .compareExpr])
      (.fail (.expected "NULL, TRUE, FALSE, UNKNOWN or DISTINCT FROM")))

/-- An operator with what it takes, on the levels that chain. -/
def link? : Level → Option Symbol.Production
  | or => some (.seq .take (.call .andExpr))
  | and => some (.seq .take (.call .betweenExpr))
  | is => some (Part.all [.take, Symbol.optKey [.NOT], test])
  | custom => some (.seq (.call .qualOp) (.call .prefixOpExpr))
  | add => some (.seq .take (.call .mulExpr))
  | multiply => some (.seq .take (.call .caretExpr))
  | caret => some (.seq .take (.call .signExpr))
  | timeZone => some (Part.all [Part.two, Part.key .ZONE, .call .collateExpr])
  | cast => some (.seq .take (.call .typename))
  | _ => none

theorem production_of_link {ℓ : Level} {r : Rule} (link : ℓ.link? = some p) (rule : ℓ.rule? = some r) :
    Symbol.production ℓ.symbol = .node r (.seq (.call ℓ.next.symbol) (.loop ℓ.goesOn p)) := by
  cases ℓ <;> cases link <;> cases rule <;> rfl

/-- Reads the links of a chain that read as `e` up to them. The text `op` is that of the custom
operator read last. -/
def apply (ℓ : Level) (o : Opened) (op : String) (links : List Kid) (e : Expr) : Outcome Expr :=
  match ℓ with
  | or => o.foldBinary Opened.orOp links (some e) none
  | and => o.foldBinary Opened.andOp links (some e) none
  | is => o.isTests links e
  | custom => o.foldCustom links (some e) op
  | add => o.foldBinary Opened.addOp links (some e) none
  | multiply => o.foldBinary Opened.mulOp links (some e) none
  | caret => o.foldBinary Opened.caretOp links (some e) none
  | timeZone => o.foldZones links (some e)
  | cast => Opened.casts links e
  | _ => .ok e

theorem apply_nil (ℓ : Level) (o : Opened) (op : String) (e : Expr) : ℓ.apply o op [] e = .ok e := by
  cases ℓ <;> rfl

/-- A node of the level that starts with `kids` reads as `e`, with the links that follow them. -/
def Folds (ℓ : Level) (kids : List Tree) (e : Formula .single) : Prop :=
  ∀ t : Tree, t.rule? = ℓ.rule? → ∀ more, more ≠ [] → t.children = kids ++ more →
    ∃ op x, x.unplaced = e.expr ∧
      (t.opened .exact).readExpr = ℓ.apply (t.opened .exact) op (more.map (Tree.kid .exact)) x

/-- What the trees of a link make of an operand that reads as `l`. -/
def Applies (ℓ : Level) (link : List Tree) (l e : Formula .single) : Prop :=
  ∀ o : Opened, o.mode = .exact → ∀ op x, x.unplaced = l.expr →
    ∃ op' x', x'.unplaced = e.expr ∧
      ∀ more, ℓ.apply o op (link.map (Tree.kid .exact) ++ more) x = ℓ.apply o op' more x'

variable {ℓ : Level}

theorem operand_of_means {t : Tree} (means : t.Means e) :
    ∃ x, x.unplaced = e.expr ∧ ∀ o : Opened, o.mode = .exact →
      o.expr (t.kid .exact) = .ok x ∧ ∀ next, o.operand (t.kid .exact) next = next x := by
  obtain ⟨x, same, read⟩ := Opened.expr_means means
  refine ⟨x, same, fun o mode => ⟨read o mode, fun next => ?_⟩⟩
  rw [Opened.operand, read o mode]
  exact if_neg (by simp [Formula.not_hole same])

/-- The first operand of a chain. -/
theorem folds_operand (link : ℓ.link? = some p) {t : Tree} (means : t.Means e)
    (rule : ∀ r, ℓ.next.rule? = some r → t.rule? = some r) : ℓ.Folds [t] e := by
  obtain ⟨x, same, reads⟩ := operand_of_means means
  intro node kind more some children
  obtain ⟨expr, operand⟩ := reads (node.opened .exact) rfl
  refine ⟨"", x, same, ?_⟩
  have leaf : t.isLeaf = false := means.not_leaf
  have kids : (node.opened .exact).kids = t.kid .exact :: more.map (Tree.kid .exact) := by
    rw [Tree.opened_kids, children]
    rfl
  have level (read : Outcome Expr) := Tree.level_eq (m := .exact) children some read
  have binary (ops : Kind → Option BinaryOp) : (node.opened .exact).folded ops =
      (node.opened .exact).foldBinary ops (more.map (Tree.kid .exact)) (.some x) none := by
    rw [Opened.folded, level, kids, Opened.foldBinary, Tree.kid_tree, leaf, if_neg Bool.false_ne_true, operand]
  rw [Opened.readExpr, Tree.opened_tree, kind]
  cases ℓ <;> cases link
  case or | and | add | multiply | caret => exact binary _
  case is =>
    change (node.opened .exact).isNot = _
    rw [Opened.isNot, level, kids]
    dsimp only
    rw [expr]
    rfl
  case custom =>
    have other : t.hasRule .qualOp = false := by simp [Tree.hasRule, rule _ rfl]
    change (node.opened .exact).customLevel = _
    rw [Opened.customLevel, level, kids, Opened.foldCustom, Tree.kid_tree, other, if_neg Bool.false_ne_true, operand]
    rfl
  case timeZone =>
    change (node.opened .exact).atTimeZone = _
    rw [Opened.atTimeZone, level, kids, Opened.foldZones, Tree.kid_tree, leaf, if_neg Bool.false_ne_true, operand]
    rfl
  case cast =>
    change (node.opened .exact).typecast = _
    rw [Opened.typecast, level, kids]
    dsimp only
    rw [expr]
    rfl

theorem Folds.extend {kids link : List Tree} {l : Formula .single} (folds : ℓ.Folds kids l)
    (applies : ℓ.Applies link l e) (some : link ≠ []) : ℓ.Folds (kids ++ link) e := by
  intro t rule more _ children
  obtain ⟨op, x, same, read⟩ := folds t rule (link ++ more) (by simp [some]) (by rw [children, append_assoc])
  obtain ⟨op', x', same', step⟩ := applies (t.opened .exact) rfl op x same
  exact ⟨op', x', same', by rw [read, map_append, step]⟩

end Level

/-! ### Chains of tokens -/

/-- The tokens `ts` are a chain on the level `ℓ` that reads as `e`, whatever links follow it. -/
def Heads (source : List Char) (ℓ : Level) (ts : List Token) (e : Formula .single) : Prop :=
  ∀ p, ℓ.link? = some p → ∀ rest, Ends ℓ.next rest → ∀ d, 32 * ts.length + (18 - ℓ.next.rank) ≤ d →
    ∃ kids, ℓ.Folds kids e ∧ ∀ vs rest' more, rest = vs ++ rest' →
      Step.Repeats ℓ.goesOn (p.run source (Symbol.run source d)) vs rest' more →
      Part.Yields source (Symbol.run source d) (.seq (.call ℓ.next.symbol) (.loop ℓ.goesOn p)) (ts ++ vs) rest'
        (kids ++ more)

/-- The tokens `us` are a link that makes `e` of a chain that reads as `l`. -/
structure Link (source : List Char) (ℓ : Level) (us : List Token) (l e : Formula .single) : Prop where
  some : us ≠ []
  goes : ∀ rest, ℓ.goesOn.holds (us ++ rest) = true
  ends : ∀ rest, Ends ℓ.next (us ++ rest)
  reads : ∀ p, ℓ.link? = .some p → ∀ rest, Ends ℓ.next rest → ∀ d, 32 * us.length + (18 - ℓ.next.rank) ≤ d →
    ∃ link, link ≠ [] ∧ Part.Yields source (Symbol.run source d) p us rest link ∧ ℓ.Applies link l e

section

variable {source : List Char} {ℓ : Level} {ts us : List Token} {l : Formula .single}

theorem Stands.heads (stands : Stands source ℓ.next ts e) : Heads source ℓ ts e := by
  intro p link rest ends d deep
  obtain ⟨t, yields, rule, means⟩ := stands rest ends d deep
  refine ⟨[t], Level.folds_operand link means rule, ?_⟩
  rintro vs rest' more rfl repeats
  exact .seq yields (.loop repeats)

theorem Heads.extend (heads : Heads source ℓ ts l) (link : Link source ℓ us l e) : Heads source ℓ (ts ++ us) e := by
  intro p chains rest ends d deep
  rw [length_append] at deep
  obtain ⟨trees, some, first, applies⟩ := link.reads p chains rest ends d (by omega)
  obtain ⟨kids, folds, chain⟩ := heads p chains (us ++ rest) (link.ends rest) d (by omega)
  refine ⟨kids ++ trees, folds.extend applies some, ?_⟩
  rintro vs rest' more rfl repeats
  have longer := Step.Repeats.step (link.goes _) link.some first repeats
  have whole := chain (us ++ vs) rest' (trees ++ more) (by rw [append_assoc]) longer
  rwa [← append_assoc, ← append_assoc] at whole

/-- A chain with a link at its end is all that a node of the level holds. -/
theorem Heads.stands (heads : Heads source ℓ ts l) (link : Link source ℓ us l e) {r : Rule} (chains : ℓ.link? = some p)
    (rule : ℓ.rule? = some r) : Stands source ℓ (ts ++ us) e := by
  refine .of_node rule (Level.production_of_link chains rule) (by simp [link.some]) fun rest ends d deep => ?_
  rw [length_append] at deep
  have inner : ℓ ≠ .primary := by
    rintro rfl
    cases rule
  have next := Level.rank_next_of_ne inner
  have bound := ℓ.next.rank_le
  have further := ends.mono ℓ.rank_next
  obtain ⟨trees, some, first, applies⟩ := link.reads p chains rest further d (by omega)
  obtain ⟨kids, folds, chain⟩ := heads p chains (us ++ rest) (link.ends rest) d (by omega)
  have stop : Step.Repeats ℓ.goesOn (p.run source (Symbol.run source d)) [] rest [] :=
    .stop (ends.stops ℓ (Nat.le_refl _))
  have last : Step.Repeats ℓ.goesOn (p.run source (Symbol.run source d)) (us ++ []) rest (trees ++ []) :=
    .step (link.goes _) link.some first stop
  rw [append_nil, append_nil] at last
  let node := Tree.covering source r (ts ++ us) (kids ++ trees)
  obtain ⟨op, x, same, read⟩ := folds node rule.symm trees some rfl
  obtain ⟨op', x', same', step⟩ := applies (node.opened .exact) rfl op x same
  have all := step []
  rw [append_nil, Level.apply_nil] at all
  exact ⟨_, chain us rest trees rfl last, x', same', read.trans all⟩

end

end TableLineage
