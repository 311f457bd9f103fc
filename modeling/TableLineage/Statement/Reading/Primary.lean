import TableLineage.Statement.Reading.Expr

/-! Reading columns, literals, function calls and the other expressions that no
operator takes apart. -/
namespace TableLineage.Opened

def constantKind? : Kind → Option ConstantKind
  | .number => some .number
  | .string => some .string
  | .keyword .TRUE | .keyword .FALSE => some .bool
  | .keyword .NULL => some .null
  | .keyword .DEFAULT => some .default
  | _ => none

def constant (o : Opened) : Outcome Expr :=
  match o.kids with
  | [] => .error .noChild
  | k :: _ =>
    match constantKind? k.tree.token.kind with
    | none => o.fail "constant" (.unknown "literal" o.tree.text)
    | some kind => .ok (.constant o.tree.span kind o.tree.text "")

def typedConstant (o : Opened) : Outcome Expr :=
  match o.tree.child? .typename, o.tree.leaf? .string with
  | some type, some text => .ok (.constant o.tree.span .typed text.token.raw type.text)
  | _, _ => o.fail "typed literal" (.expected "a type name and a string")

def fieldsAfter (m : ReadMode) : Bool → List Tree → List String
  | _, [] => []
  | afterDot, t :: ts =>
    let rest := fieldsAfter m (t.is .dot) ts
    if afterDot && t.isLeaf && !(t.is .dot || t.is .lbracket || t.is .rbracket || t.is .colon) then
      m.name t.token :: rest
    else rest

def fields (m : ReadMode) (t : Tree) : List String := fieldsAfter m false t.children

def subscripts : List Kid → Outcome (List Expr)
  | [] => .ok []
  | k :: ks =>
    if k.tree.hasRule .indirection then do
      let some' ← k.read (.many .expr)
      let rest ← subscripts ks
      return some'.toList ++ rest
    else subscripts ks

def columnRef (o : Opened) : Outcome Expr := do
  let names := (o.tree.children.filter fun c => !c.hasRule .indirection && !c.is .dot && !c.is .star).map
    fun c => o.mode.name c.token
  return .column o.tree.span names (o.tree.has .star) (.ofList (← subscripts o.kids))

def selectExpr (o : Opened) : Outcome Expr := do
  let query ← (← o.need .selectWithParens "scalar subquery").read .query
  match o.kid? .indirection with
  | none => return .scalar o.tree.span query [] .nil
  | some path => return .scalar o.tree.span query (fields o.mode path.tree) (← path.read (.many .expr))

def existsExpr (o : Opened) : Outcome Expr := do
  return .nonempty o.tree.span (← (← o.need .selectWithParens "exists").read .query)

def castFunc (o : Opened) : Outcome Expr := do
  let type ← o.need .typename "cast"
  return .cast o.tree.span (← o.firstExpr "cast") type.tree.text

def whenClause (o : Opened) : Outcome (Phrase .when) :=
  match o.nodes with
  | [condition, result] => do
    let condition ← o.expr condition
    let result ← o.expr result
    return .when o.tree.span condition result
  | _ => o.fail "when clause" (.expected "a condition and a result")

structure CaseParts where
  subject : Option Expr
  whens : List (Phrase .when)
  otherwise : Option Expr

namespace CaseParts

def empty : CaseParts := ⟨none, [], none⟩

/-- Whether the subject, if there is one, can no longer follow. -/
def pastSubject (p : CaseParts) : Bool := !p.whens.isEmpty || (p.subject.map (!·.isHole)).getD false

end CaseParts

def caseParts (o : Opened) : List Kid → CaseParts → Outcome CaseParts
  | [], p => .ok p
  | k :: ks, p =>
    if k.tree.hasRule .whenClause then do
      let w ← k.read .when
      caseParts o ks { p with whens := p.whens ++ [w] }
    else if k.tree.hasRule .elseClause then do
      let e ← k.read .expr
      caseParts o ks { p with otherwise := some e }
    else if p.pastSubject then k.tree.fail "case expression" (.unexpectedRule k.tree.ruleName)
    else do
      let e ← o.expr k
      caseParts o ks { p with subject := some e }

def caseExpr (o : Opened) : Outcome Expr := do
  let p ← o.caseParts o.nodes .empty
  if p.whens.isEmpty then o.fail "case expression" (.missing "WHEN")
  else return .choice o.tree.span (.ofOption p.subject) (.ofList p.whens) (.ofOption p.otherwise)

/-- How a call treats nulls; the last word on it counts. -/
def nullTreatment (treatments : List Tree) : Option NullTreatment :=
  treatments.getLast?.map fun t => if t.has (.keyword .IGNORE) then .ignore else .respect

def funcCall (o : Opened) : Outcome Expr := do
  let name ← o.need .funcName "function call"
  let args ← o.need .funcArgs "function call"
  let list ← args.read (.many .expr)
  let orderBy ← args.read (.maybe .sort)
  let withinGroup ← o.optional .withinGroup .sort
  let filter ← o.optional .filterClause .expr
  let windowed ← o.optional .overClause .overClause
  let nulls := nullTreatment (args.tree.childrenOf .nullTreatment ++ o.tree.childrenOf .nullTreatment)
  return .call o.tree.span (o.mode.qualifiedName name.tree) list (args.tree.has (.keyword .ALL))
    (args.tree.has (.keyword .DISTINCT)) (args.tree.has .star) nulls orderBy withinGroup filter windowed

/-- What clauses call themselves when they lack their expression. -/
def clauseName : Rule → String
  | .limitClause => "limit clause"
  | .offsetClause => "offset clause"
  | .whereClause => "where clause"
  | .havingClause => "having clause"
  | .qualifyClause => "qualify clause"
  | .topClause => "top clause"
  | .filterClause => "filter clause"
  | .elseClause => "else clause"
  | .sortBy => "sort item"
  | .joinOn => "join condition"
  | .targetLabel => "target"
  | .parenExpr => "parenthesized expression"
  | _ => "expression"

def readExpr (o : Opened) : Outcome Expr :=
  match o.tree.rule? with
  | none => o.fail "expression" (.unexpectedRule o.tree.ruleName)
  | some rule =>
    match rule with
    | .aExprOr => o.folded orOp
    | .aExprAnd => o.folded andOp
    | .aExprBetween => o.between
    | .aExprIn => o.within
    | .aExprUnaryNot => o.unaryLevel .aExprUnaryNot
    | .aExprIsNull => o.isNull
    | .aExprIsNot => o.isNot
    | .aExprCompare => o.compare
    | .aExprLike => o.like
    | .aExprQualOp => o.customLevel
    | .aExprUnaryQualOp => o.prefixCustom
    | .aExprAdd => o.folded addOp
    | .aExprMul => o.folded mulOp
    | .aExprCaret => o.folded caretOp
    | .aExprUnarySign => o.unaryLevel .aExprUnarySign
    | .aExprAtTimeZone => o.atTimeZone
    | .aExprCollate => o.collate
    | .aExprTypecast => o.typecast
    | .subqueryQuantifier => o.quantified
    | .columnRef => o.columnRef
    | .constant => o.constant
    | .typedConstant => o.typedConstant
    | .param => .ok (.constant o.tree.span .param o.tree.text "")
    | .implicitRow => do return .row o.tree.span (← o.exprs)
    | .selectExpr => o.selectExpr
    | .existsExpr => o.existsExpr
    | .caseExpr => o.caseExpr
    | .funcCall => o.funcCall
    | .castFunc => o.castFunc
    | .commonFuncCall => do return .special o.tree.span o.tree.text (← o.exprs)
    | .topClause =>
      match o.tree.leaf? .number with
      | some n => .ok (.constant n.span .number n.token.raw "")
      | none => o.firstExpr (clauseName rule)
    | _ => o.firstExpr (clauseName rule)

/-- The expressions of a list; subscripts and rows have theirs one level below. -/
def readExprs (o : Opened) : Outcome (Phrase (.many .expr)) :=
  match o.tree.rule? with
  | some .valuesRow | some .inList | some .partitionClause | some .funcArgs => o.listed
  | _ => o.exprs

end TableLineage.Opened
