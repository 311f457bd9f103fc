import TableLineage.Proofs.Statement.Ready

/-! Trees of any shape. Reading a tree is to give a complete phrase or to say what is wrong with the
tree and where. It does so for firm trees: no level of operators in them is without an operand, no
two operands stand side by side, and no node lacks the child that its reading starts from. -/
namespace TableLineage

open List

/-- A value with the property, or an error that says what is wrong and where. -/
inductive Answered {α : Type} (P : α → Prop) : Outcome α → Prop
  | ok {a : α} (holds : P a) : Answered P (.ok a)
  | refused {construct : String} {span : Span} {problem : Problem} : Answered P (.error (.at construct span problem))

namespace Answered

variable {α β : Type} {P : α → Prop} {Q : β → Prop} {x : Outcome α}

theorem bind {f : α → Outcome β} (first : Answered P x) (rest : ∀ a, P a → Answered Q (f a)) : Answered Q (x >>= f) := by
  cases first with
  | ok holds => exact rest _ holds
  | refused => exact .refused

end Answered

/-- The levels that fold operators between operands. -/
def Rule.isFold : Rule → Bool
  | .aExprOr | .aExprAnd | .aExprAdd | .aExprMul | .aExprCaret => true
  | _ => false

/-- The rules whose nodes are read from their first or last child on, whether it is there or not. -/
def Rule.startsFromChild : Rule → Bool
  | .aExprIsNull | .aExprIsNot | .aExprTypecast | .constant | .subqueryQuantifier | .windowDefinition | .overClause
  | .targetLabel | .alterRenameStmt | .joinType | .setOperator => true
  | _ => false

namespace Tree

/-- A level of operators without an operand. -/
def isHollow (t : Tree) : Bool :=
  match t.rule? with
  | some .aExprQualOp => t.children.length != 1 && t.children.all (·.hasRule .qualOp)
  | some .aExprAtTimeZone =>
    t.children.length != 1 && t.children.all fun c => c.is (.keyword .AT) || c.is (.keyword .TIME) || c.is (.keyword .ZONE)
  | some r => r.isFold && t.children.isEmpty
  | none => false

/-- Whether two nodes stand side by side. -/
def touching : List Tree → Bool
  | a :: b :: rest => !a.isLeaf && !b.isLeaf || touching (b :: rest)
  | _ => false

theorem touching_cons {a : Tree} {ts : List Tree} (apart : touching (a :: ts) = false) :
    touching ts = false ∧ (a.isLeaf = false → ∀ b ∈ ts.head?, b.isLeaf) := by
  cases ts with
  | nil => simp [touching]
  | cons b ts => simp_all [touching]

/-- A node without the child that its reading starts from, or an operator missing between operands. -/
def isAbrupt (t : Tree) : Bool :=
  match t.rule? with
  | some r => r.startsFromChild && t.children.isEmpty || r.isFold && touching t.children
  | none => false

mutual

/-- Whether no node of the tree is hollow or abrupt. -/
def isFirm : Tree → Bool
  | .leaf _ => true
  | .node r f l x cs => !(Tree.node r f l x cs).isHollow && !(Tree.node r f l x cs).isAbrupt && allFirm cs

def allFirm : List Tree → Bool
  | [] => true
  | t :: ts => t.isFirm && allFirm ts

end

theorem allFirm_iff {ts : List Tree} : allFirm ts ↔ ∀ t ∈ ts, t.isFirm := by
  induction ts with
  | nil => simp [allFirm]
  | cons t ts ih => simp [allFirm, ih]

/-- The categories in which a tree may be read: some only as a node from their own rule. -/
def answers (t : Tree) : Category → Bool
  | .windowDef => t.hasRule .windowDefinition
  | .overClause => t.hasRule .overClause
  | .source | .inSource => false
  | .many c => c = .expr || c = .target || c = .windowDef || c = .sourceItem
  | .maybe c => c = .sort
  | _ => true

theorem children_ne_nil_of_not_abrupt {t : Tree} {r : Rule} (steady : t.isAbrupt = false) (rule : t.rule? = some r)
    (starts : r.startsFromChild) : t.children ≠ [] := by
  intro none
  simp [isAbrupt, rule, starts, none] at steady

end Tree

end TableLineage
