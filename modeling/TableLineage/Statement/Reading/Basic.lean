import TableLineage.Statement.Mismatch
import TableLineage.Statement.Phrase
import TableLineage.Text.Lower

/-! Readings: a parse tree is read as a phrase of a given category. How a node
reads depends on its rule and on the readings of its children, which an opened
node carries along. -/
namespace TableLineage

structure ReadMode where
  normalize : Bool
  blind : Bool
  deriving DecidableEq, Repr

abbrev Outcome (α : Type) := Except Mismatch α

/-- A child and how it reads in each category. -/
structure Kid where
  tree : Tree
  read : (c : Category) → Outcome (Phrase c)

/-- A node with its children opened for reading. -/
structure Opened where
  mode : ReadMode
  tree : Tree
  kids : List Kid

namespace Tree

def fail {α : Type} (t : Tree) (construct : String) (problem : Problem) : Outcome α :=
  .error (.at construct t.span problem)

/-- The first child from the rule `r`, which a `construct` cannot do without. -/
def need (t : Tree) (r : Rule) (construct : String) : Outcome Tree :=
  match t.child? r with
  | some c => .ok c
  | none => t.fail construct (.missing r.name)

end Tree

def Rule.isExpression : Rule → Bool
  | .aExprOr | .aExprAnd | .aExprBetween | .aExprIn | .aExprUnaryNot | .aExprIsNull | .aExprIsNot
  | .aExprCompare | .aExprLike | .aExprQualOp | .aExprUnaryQualOp | .aExprAdd | .aExprMul | .aExprCaret
  | .aExprUnarySign | .aExprAtTimeZone | .aExprCollate | .aExprTypecast
  | .columnRef | .constant | .typedConstant | .param | .parenExpr | .implicitRow | .selectExpr | .existsExpr
  | .caseExpr | .funcCall | .castFunc | .commonFuncCall => true
  | _ => false

/-! ### Names -/

namespace ReadMode

variable (m : ReadMode)

/-- The text of a name. Quoted names stay as they are. -/
def name (t : Token) : String := if m.normalize && !t.quoted then Text.lower t.raw else t.raw

/-- The parts of a name joined by dots, quotes kept. -/
def qualifiedName (t : Tree) : String :=
  String.join ((t.children.filter Tree.isLeaf).map fun c => if c.is .dot then "." else m.name c.token)

def nameList (t : Tree) : List String :=
  (t.children.filter fun c => c.isLeaf && !c.is .comma).map fun c => m.name c.token

def columnList (t : Tree) : List String :=
  match (t.child? .columnList).bind (·.child? .nameList) with
  | some names => m.nameList names
  | none => []

def aliasName (t : Tree) : String :=
  match t.child? .aliasClause with
  | some a =>
    match a.children.find? fun c => c.isLeaf && !c.is (.keyword .AS) with
    | some c => m.name c.token
    | none => ""
  | none => ""

end ReadMode

/-! ### Children -/

namespace Opened

variable (o : Opened)

def kid? (r : Rule) : Option Kid := o.kids.find? (·.tree.hasRule r)

def kidsOf (r : Rule) : List Kid := o.kids.filter (·.tree.hasRule r)

def nodes : List Kid := o.kids.filter (!·.tree.isLeaf)

def has (k : Keyword) : Bool := o.tree.has (.keyword k)

def fail {α : Type} (construct : String) (problem : Problem) : Outcome α := o.tree.fail construct problem

def need (r : Rule) (construct : String) : Outcome Kid :=
  match o.kid? r with
  | some k => .ok k
  | none => o.fail construct (.missing r.name)

/-- The child from the rule `r` read as a `c`, if there is one. -/
def optional (r : Rule) (c : Category) : Outcome (Phrase (.maybe c)) :=
  match o.kid? r with
  | none => .ok .none
  | some k => do return .some (← k.read c)

def expr (k : Kid) : Outcome Expr :=
  if o.mode.blind then .ok .hole
  else if (k.tree.rule?.map Rule.isExpression).getD false then k.read .expr
  else k.tree.fail "expression" (.unexpectedRule k.tree.ruleName)

def firstExpr (construct : String) : Outcome Expr :=
  match o.nodes with
  | k :: _ => o.expr k
  | [] => o.fail construct (.missing "expression")

end Opened

def readEach {c : Category} (read : Kid → Outcome (Phrase c)) : List Kid → Outcome (Phrase (.many c))
  | [] => .ok .nil
  | k :: ks => do
    let x ← read k
    let xs ← readEach read ks
    return .cons x xs

namespace Opened

variable (o : Opened)

def exprs : Outcome (Phrase (.many .expr)) := readEach o.expr o.nodes

def listed : Outcome (Phrase (.many .expr)) :=
  match o.kid? .exprList with
  | some k => k.read (.many .expr)
  | none => .ok .nil

end Opened
end TableLineage
