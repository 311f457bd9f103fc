import TableLineage.Proofs.Statement.ViewQuery
import TableLineage.Statement.Script
import TableLineage.Tree.Edit

/-! Firm trees are read as complete statements or refused. Trees that are not firm may read as
statements with holes, or not come to an outcome at all. -/
namespace TableLineage

open List
open Phrase (Complete)

/-- A statement without holes, or a word on one that is passed over. -/
def Item.Complete : Item → Prop
  | .statement s => s.Complete
  | .skipped _ => True

namespace Tree

variable {m : ReadMode} {t : Tree} {r : Rule} {c : Category}

theorem isFirm_of_mem {d : Tree} (firm : t.isFirm) (member : d ∈ t.children) : d.isFirm := by
  cases t with
  | leaf => cases member
  | node r f l x cs =>
    simp only [isFirm, Bool.and_eq_true] at firm
    exact allFirm_iff.1 firm.2 d member

theorem answered_statementBody (firm : t.isFirm) : Answered (fun body => body.isFirm) t.statementBody := by
  rw [statementBody]
  split
  · split
    · next body nodes => exact .ok (isFirm_of_mem firm (mem_filter.1 (nodes ▸ mem_singleton_self body)).1)
    · exact .refused
  · exact .ok firm

theorem answered_item (sighted : m.blind = false) (firm : t.isFirm) : Answered Item.Complete (t.item m) := by
  refine (answered_statementBody firm).bind fun body inner => ?_
  split
  · exact .ok trivial
  · exact (answered_read sighted inner rfl).bind fun s complete => .ok complete

/-! ### Trees that are not firm -/

theorem foldCustom_of_all {o : Opened} {ks : List Kid} (all : ∀ k ∈ ks, k.tree.hasRule .qualOp) (op : String) :
    o.foldCustom ks none op = .ok .hole := by
  induction ks generalizing op with
  | nil => rfl
  | cons k ks ih =>
    rw [Opened.foldCustom, if_pos (all k mem_cons_self)]
    exact ih (fun c member => all c (mem_cons_of_mem _ member)) _

theorem foldZones_of_all {o : Opened} {ks : List Kid}
    (all : ∀ k ∈ ks, k.tree.is (.keyword .AT) || k.tree.is (.keyword .TIME) || k.tree.is (.keyword .ZONE)) :
    o.foldZones ks none = .ok .hole := by
  induction ks with
  | nil => rfl
  | cons k ks ih =>
    have word := all k mem_cons_self
    have leaf : k.tree.isLeaf := by
      cases tree : k.tree with
      | leaf => rfl
      | node => simp [tree, is] at word
    rw [Opened.foldZones, if_pos leaf, if_pos word]
    exact ih fun c member => all c (mem_cons_of_mem _ member)

theorem level_of_length {o : Opened} (several : o.kids.length ≠ 1) (read : Outcome Expr) : o.level read = read := by
  unfold Opened.level Opened.single?
  rcases kids : o.kids with _ | ⟨k, _ | _⟩
  · rfl
  · exact absurd (congrArg List.length kids) several
  · rfl

theorem read_of_isHollow (hollow : t.isHollow) : t.read m .expr = .ok .hole := by
  rw [read_eq]
  change (t.opened m).readExpr = _
  rw [Opened.readExpr, opened_tree]
  rw [isHollow] at hollow
  split at hollow
  · next rule =>
    simp only [Bool.and_eq_true, bne_iff_ne, all_eq_true] at hollow
    rw [rule]
    exact (level_of_length (by simpa using hollow.1) _).trans (foldCustom_of_all (by simpa using hollow.2) "")
  · next rule =>
    simp only [Bool.and_eq_true, bne_iff_ne, all_eq_true] at hollow
    rw [rule]
    refine (level_of_length (by simpa using hollow.1) _).trans (foldZones_of_all ?_)
    simpa using hollow.2
  · next r _ _ rule =>
    simp only [Bool.and_eq_true, List.isEmpty_iff] at hollow
    have folds (ops : Kind → Option BinaryOp) : (t.opened m).folded ops = .ok .hole := by
      rw [Opened.folded, level_of_length (by simp [hollow.2]), opened_kids, hollow.2]
      rfl
    rw [rule]
    cases r with
    | aExprOr | aExprAnd | aExprAdd | aExprMul | aExprCaret => exact folds _
    | _ => exact absurd hollow.1 (by decide)
  · cases hollow

theorem read_of_childless (rule : t.rule? = some r) (starts : r.startsFromChild) (none : t.children = [])
    (role : c ∈ r.roles) : t.read m c = .error .noChild := by
  cases t with
  | leaf => cases rule
  | node _ f l x cs =>
    cases rule
    obtain rfl : cs = [] := none
    cases r with
    | aExprIsNull | aExprIsNot | aExprTypecast | constant | subqueryQuantifier | windowDefinition | overClause
    | targetLabel | alterRenameStmt =>
      obtain rfl := mem_singleton.1 role
      rfl
    | joinType | setOperator => cases role
    | _ => exact absurd starts (by decide)

/-- An expression that can be read. -/
structure Operand (m : ReadMode) (t : Tree) : Prop where
  expression : (t.rule?.map Rule.isExpression).getD false
  given : Gives (t.read m .expr)

theorem Operand.not_leaf (operand : t.Operand m) : t.isLeaf = false := by
  cases t with
  | leaf => cases operand.expression
  | node => rfl

theorem Operand.operand_eq (sighted : m.blind = false) {d : Tree} (operand : d.Operand m) :
    ∃ e : Expr, ∀ next, (t.opened m).operand (d.kid m) next = next e := by
  obtain ⟨e, read, complete⟩ := operand.given
  have found : (t.opened m).expr (d.kid m) = .ok e := by
    rw [Opened.expr, show (t.opened m).mode.blind = false from sighted]
    simp only [kid_tree, operand.expression, Bool.false_eq_true, if_false, if_true]
    exact read
  refine ⟨e, fun next => ?_⟩
  rw [Opened.operand, found]
  simp only [bind, Except.bind, complete.not_hole]
  rfl

theorem read_of_touching (sighted : m.blind = false) (rule : t.rule? = some r) (fold : r.isFold) {a b : Tree}
    {rest : List Tree} (children : t.children = a :: b :: rest) (left : a.Operand m) (right : b.Operand m) :
    t.read m .expr = .error .noChild := by
  obtain ⟨e, first⟩ := left.operand_eq (t := t) sighted
  obtain ⟨e', second⟩ := right.operand_eq (t := t) sighted
  have folds (ops : Kind → Option BinaryOp) : (t.opened m).folded ops = .error .noChild := by
    rw [Opened.folded, level_of_length (by simp [children]), opened_kids, children]
    simp [Opened.foldBinary, left.not_leaf, right.not_leaf, first, second]
  rw [read_eq]
  change (t.opened m).readExpr = _
  rw [Opened.readExpr, opened_tree, rule]
  cases r with
  | aExprOr | aExprAnd | aExprAdd | aExprMul | aExprCaret => exact folds _
  | _ => exact absurd fold (by decide)

end Tree

/-- A firm tree, whatever its shape, is read as a complete statement, passed over, or refused with
an error that says where and why. The nodes that firm trees do without are not refused: a hollow
one is read as a hole, and one without the child that its reading starts from, or with two operands
side by side, comes to no outcome. -/
theorem any_firm_tree_is_read_or_refused (normalize : Bool) (t : Tree) :
    (t.isFirm → Answered Item.Complete (t.item ⟨normalize, false⟩)) ∧
      (t.isHollow → t.read ⟨normalize, false⟩ .expr = .ok .hole) ∧
      (∀ r, t.rule? = some r → r.startsFromChild → t.children = [] → ∀ c ∈ r.roles,
        t.read ⟨normalize, false⟩ c = .error .noChild) ∧
      ∀ r a b rest, t.rule? = some r → r.isFold → t.children = a :: b :: rest → a.Operand ⟨normalize, false⟩ →
        b.Operand ⟨normalize, false⟩ → t.read ⟨normalize, false⟩ .expr = .error .noChild := by
  refine ⟨Tree.answered_item rfl, Tree.read_of_isHollow, ?_, ?_⟩
  · intro r rule starts none c role
    exact Tree.read_of_childless rule starts none role
  · intro r a b rest rule fold children left right
    exact Tree.read_of_touching rfl rule fold children left right

/-- The tree of a text with an edit at its first node from a rule. -/
def editedTree? (text rule : String) (e : Edit) : Option Tree := (parse text).toOption.map (·.editNth rule 0 e)

/-- A statement with its list of targets twice is firm. -/
theorem any_firm_tree_is_read_or_refused_doubled :
    ∃ t ∈ editedTree? "SELECT a + 1 FROM t" "SimpleSelect" (.dup 1), ∃ n ∈ t.childrenOf .stmt,
      n.isFirm ∧ Answered Item.Complete (n.item ⟨true, false⟩) := by
  have firm : ∃ t ∈ editedTree? "SELECT a + 1 FROM t" "SimpleSelect" (.dup 1), ∃ n ∈ t.childrenOf .stmt, n.isFirm := by
    decide +kernel
  obtain ⟨t, edited, n, member, firm⟩ := firm
  exact ⟨t, edited, n, member, firm, (any_firm_tree_is_read_or_refused true n).1 firm⟩

/-- The targets of a plain query. -/
def Statement.targets : Statement → List (Phrase .target)
  | .select (.query _ _ (.core _ _ _ _ ts _ _ _ _ _ _ _) _ _ _) => ts.toList
  | _ => []

/-- Whether a target has no expression. -/
def Phrase.isBlank : Phrase .target → Bool
  | .labelled _ e _ => e.isHole
  | .star .. => false

theorem Statement.not_complete_of_isBlank {s : Statement} (blank : s.targets.any Phrase.isBlank) : ¬ s.Complete := by
  intro complete
  obtain ⟨p, member, hole⟩ := any_eq_true.1 blank
  unfold targets at member
  split at member
  · have target := complete.2.1.2.2.1.of_mem_toList member
    cases p with
    | star => cases hole
    | labelled _ e _ => cases hole.symm.trans (Complete.not_hole target)
  · cases member

/-- A target whose levels of operators were cleared reads as a target without an expression. -/
theorem cleared_target_is_not_refused :
    ∃ t ∈ editedTree? "SELECT a FROM t" "AExprOr" .clear, ∃ s ∈ (Script.ofTree false (some t)).toOption,
      ∃ q ∈ s.statements, ¬ q.Complete := by
  have blank : ∃ t ∈ editedTree? "SELECT a FROM t" "AExprOr" .clear, ∃ s ∈ (Script.ofTree false (some t)).toOption,
      ∃ q ∈ s.statements, q.targets.any Phrase.isBlank := by decide +kernel
  obtain ⟨t, edited, s, read, q, member, hole⟩ := blank
  exact ⟨t, edited, s, read, q, member, Statement.not_complete_of_isBlank hole⟩

end TableLineage
