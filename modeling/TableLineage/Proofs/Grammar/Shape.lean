import TableLineage.Grammar.Sql
import TableLineage.Proofs.Grammar.Form

/-! The shapes of parse trees: the forms that the children of a node may have, for each
rule. That productions build no others is checked against this table. -/
namespace TableLineage

namespace Grammar.Form

def key (k : Keyword) : Form := leaf (some (.kind (.keyword k)))

def keys (ks : List Keyword) : Form := leaf (some (.anyOf (ks.map .keyword)))

def tok (k : Kind) : Form := leaf (some (.kind k))

def toks (ks : List Kind) : Form := leaf (some (.anyOf ks))

def ident : Form := leaf (some .name)

def label : Form := leaf (some .label)

def any : Form := leaf none

def one (r : Rule) : Form := node [r]

def opt (a : Form) : Form := alt a empty

def row (as : List Form) : Form := as.foldr followedBy empty

/-- A form followed by more of them, each behind `mark`. -/
def separated (a mark : Form) : Form := a.followedBy (many (mark.followedBy a))

def list (a : Form) : Form := separated a (tok .comma)

def parens (a : Form) : Form := row [tok .lparen, a, tok .rparen]

/-- The names that go on after a dot. -/
def dotted : Form := many (seq (tok .dot) any)

end Grammar.Form

namespace Rule

open Grammar (Form)
open Grammar.Form

/-! Parts of forms, which several forms share or which would make them long. -/

def insertParts : Form :=
  row [key .INSERT, key .INTO, one .insertTarget, opt (one .columnList),
    alt (row [key .DEFAULT, key .VALUES]) (one .selectStmt)]

def deleteParts : Form :=
  row [key .DELETE, opt (key .FROM), one .deleteTarget, opt (one .deleteUsing), opt (one .whereClause)]

def createParts : Form :=
  row [key .CREATE, opt (key .LOCAL), opt (keys [.TEMP, .TEMPORARY]), key .TABLE,
    opt (row [key .IF, key .NOT, key .EXISTS]), one .qualifiedName]

def queryParts : Form :=
  row [one .selectClause, opt (one .sortClause),
    alt (row [one .limitClause, opt (one .offsetClause)])
      (opt (row [one .offsetClause, opt (one .limitClause)]))]

def distinctParts : Form :=
  alt (key .ALL) (opt (row [key .DISTINCT, opt (row [key .ON, parens (one .exprList)])]))

def groupItem : Form := row [opt (row [any, any]), alt (row [tok .lparen, tok .rparen]) (one .aExprOr)]

def selectOperand : Form := node [.simpleSelect, .valuesClause, .selectWithParens]

def tableSource : Form :=
  row [node [.selectWithParens, .nestedTableRef, .relationExpr], opt (one .aliasClause)]

def joinParts : Form := alt (one .joinType) (opt (one .joinType))

def joined : Form := node [.crossJoin, .naturalJoin, .qualifiedJoin]

def target : Form := node [.targetStar, .targetLabel]

def inSource : Form := node [.selectWithParens, .inList]

def isTest : Form :=
  row [key .IS, opt (key .NOT),
    alt (keys [.NULL, .TRUE, .FALSE, .UNKNOWN]) (row [key .DISTINCT, key .FROM, one .aExprCompare])]

def pattern : Form := row [one .aExprQualOp, opt (row [key .ESCAPE, one .aExprQualOp])]

def primary : Form :=
  node [.constant, .param, .caseExpr, .castFunc, .selectExpr, .implicitRow, .parenExpr, .existsExpr,
    .commonFuncCall, .funcCall, .typedConstant, .columnRef]

def positionMarks : List Kind := .keyword .IN :: Grammar.Symbol.argumentMarks

/-- Arguments with `marks` among them. -/
def markedArguments (marks : List Kind) : Form := many (alt (toks marks) (one .aExprOr))

def statement : Form :=
  node [.insertStmt, .deleteStmt, .selectStmt, .createViewStmt, .otherStmt, .createTableAsStmt, .createTableStmt,
    .alterRenameStmt, .dropStmt]

/-- The forms of the children of a node. -/
def forms : Rule → List Form
  -- Statements
  | .root => [row [many (tok .semicolon), many (row [one .stmt, many (tok .semicolon)])]]
  | .stmt => [statement]
  | .selectStmt => [row [one .withClause, queryParts], row [opt (one .withClause), queryParts]]
  | .insertStmt => [row [one .withClause, insertParts], insertParts]
  | .deleteStmt => [row [one .withClause, deleteParts], deleteParts]
  | .createTableAsStmt =>
    [row [createParts, opt (one .columnList), alt empty (one .tableAttributes), key .AS, one .selectStmt]]
  | .createViewStmt =>
    [row [key .CREATE, opt (row [key .OR, key .REPLACE]), opt (key .MATERIALIZED), key .VIEW,
      one .qualifiedName, opt (one .columnList), alt empty (one .viewOptions), key .AS, one .selectStmt,
      opt (one .viewOptions)]]
  | .createTableStmt => [row [createParts, one .columnDefinitions, alt empty (one .tableAttributes)]]
  | .alterRenameStmt => [row [key .ALTER, key .TABLE, one .qualifiedName, key .RENAME, key .TO, ident]]
  | .dropStmt =>
    [row [key .DROP, alt (keys [.TABLE, .VIEW]) (row [key .MATERIALIZED, key .VIEW]),
      opt (row [key .IF, key .EXISTS]), list (one .qualifiedName), opt (keys [.CASCADE, .RESTRICT])]]
  | .otherStmt | .tableAttributes | .viewOptions | .frameClause => [many any]
  -- Parts of statements
  | .insertTarget => [row [one .qualifiedName, opt (row [key .AS, ident])]]
  | .columnList => [parens (one .nameList)]
  | .deleteTarget => [row [one .qualifiedName, opt (one .aliasClause)]]
  | .deleteUsing => [row [key .USING, list (one .tableRef)]]
  | .columnDefinitions => [parens (many any)]
  | .qualifiedName => [row [ident, dotted]]
  | .nameList => [list ident]
  -- Queries
  | .selectWithParens => [parens (node [.selectWithParens, .selectStmt])]
  | .withClause => [row [key .WITH, opt (key .RECURSIVE), list (one .commonTableExpr)]]
  | .commonTableExpr => [row [ident, opt (one .columnList), key .AS, one .selectWithParens]]
  | .selectClause => [separated (one .simpleSelectIntersect) (one .setOperator)]
  | .simpleSelectIntersect => [separated selectOperand (one .setOperator)]
  | .simpleSelect =>
    [row [key .SELECT,
      alt (row [one .topClause, distinctParts]) (row [distinctParts, opt (one .topClause)]),
      one .targetList, opt (one .intoClause), opt (one .fromClause), opt (one .whereClause),
      opt (one .groupClause), opt (one .havingClause), opt (one .qualifyClause), opt (one .windowClause)]]
  | .valuesClause => [row [key .VALUES, list (one .valuesRow)]]
  | .valuesRow | .inList => [parens (one .exprList)]
  | .setOperator => [row [keys [.UNION, .EXCEPT, .MINUS, .INTERSECT], opt (keys [.ALL, .DISTINCT])]]
  | .topClause => [row [key .TOP, alt (one .aExprOr) (tok .number)]]
  | .targetList => [list target]
  | .targetStar => [row [many any, any]]
  | .targetLabel =>
    [row [one .aExprOr, alt (row [key .AS, label]) (opt any)]]
  | .intoClause => [row [key .INTO, opt (keys [.TEMP, .TEMPORARY]), opt (key .TABLE), one .qualifiedName]]
  | .fromClause => [row [key .FROM, list (one .tableRef)]]
  | .tableRef => [row [tableSource, many joined], tableSource]
  | .relationExpr => [one .qualifiedName]
  | .nestedTableRef => [parens (one .tableRef)]
  | .aliasClause => [row [opt (key .AS), ident, opt (one .columnList)]]
  | .crossJoin => [row [key .CROSS, key .JOIN, one .tableRef]]
  | .qualifiedJoin => [row [joinParts, key .JOIN, one .tableRef, node [.joinOn, .joinUsing]]]
  | .naturalJoin => [row [key .NATURAL, joinParts, key .JOIN, one .tableRef]]
  | .joinType => [key .INNER, row [keys [.LEFT, .RIGHT, .FULL], opt (key .OUTER)]]
  | .joinOn => [row [key .ON, one .aExprOr]]
  | .joinUsing => [row [key .USING, parens (one .nameList)]]
  | .whereClause => [row [key .WHERE, one .aExprOr]]
  | .groupClause => [row [key .GROUP, key .BY, opt (keys [.ALL, .DISTINCT]), list groupItem]]
  | .havingClause | .qualifyClause => [row [any, one .aExprOr]]
  | .windowClause => [row [key .WINDOW, list (one .windowDefinition)]]
  | .windowDefinition => [row [ident, key .AS, one .windowSpec]]
  | .sortClause => [row [key .ORDER, key .BY, list (one .sortBy)]]
  | .sortBy =>
    [row [one .aExprOr, opt (keys [.ASC, .DESC]), opt (row [key .NULLS, alt (key .FIRST) (key .LAST)])]]
  | .limitClause => [row [key .LIMIT, alt (key .ALL) (one .aExprOr)]]
  | .offsetClause => [row [key .OFFSET, one .aExprOr, opt any]]
  -- Levels of expressions
  | .aExprOr => [separated (one .aExprAnd) (key .OR)]
  | .aExprAnd => [separated (one .aExprBetween) (key .AND)]
  | .aExprBetween =>
    [row [one .aExprIn, opt (row [opt (key .NOT), key .BETWEEN, opt (key .SYMMETRIC), one .aExprIn, key .AND,
      one .aExprIn])]]
  | .aExprIn =>
    [row [one .aExprUnaryNot, opt (row [opt (key .NOT), key .IN, inSource])]]
  | .aExprUnaryNot => [alt (row [key .NOT, one .aExprUnaryNot]) (one .aExprIsNull)]
  | .aExprIsNull => [row [one .aExprIsNot, many (keys [.ISNULL, .NOTNULL])]]
  | .aExprIsNot => [row [one .aExprCompare, many isTest]]
  | .aExprCompare =>
    [row [one .aExprLike, opt (row [toks [.eq, .ne, .lt, .gt, .le, .ge], node [.subqueryQuantifier, .aExprLike]])]]
  | .aExprLike =>
    [row [one .aExprQualOp, alt (row [opt (key .NOT), keys [.LIKE, .ILIKE], pattern])
      (opt (row [opt (key .NOT), key .SIMILAR, key .TO, pattern]))]]
  | .aExprQualOp => [separated (one .aExprUnaryQualOp) (one .qualOp)]
  | .aExprUnaryQualOp => [row [opt (one .qualOp), one .aExprAdd]]
  | .aExprAdd => [separated (one .aExprMul) (toks [.plus, .minus])]
  | .aExprMul => [separated (one .aExprCaret) (toks [.star, .slash, .percent])]
  | .aExprCaret => [separated (one .aExprUnarySign) (tok .caret)]
  | .aExprUnarySign => [alt (row [toks [.plus, .minus], one .aExprUnarySign]) (one .aExprAtTimeZone)]
  | .aExprAtTimeZone => [separated (one .aExprCollate) (row [key .AT, key .TIME, key .ZONE])]
  | .aExprCollate => [row [one .aExprTypecast, opt (row [key .COLLATE, one .anyName])]]
  | .aExprTypecast => [row [primary, many (row [tok .typecast, one .typename])]]
  -- Parts of expressions
  | .subqueryQuantifier =>
    [row [keys [.ANY, .ALL, .SOME],
      alt (alt (one .selectWithParens) (parens (one .aExprOr))) (parens (one .aExprOr))]]
  | .qualOp =>
    [alt (tok .op) (row [key .OPERATOR, tok .lparen, many (row [any, tok .dot]), leaf (some .sign), tok .rparen])]
  | .typename =>
    [row [label, dotted, many any, opt (parens (one .exprList)),
      opt (row [any, key .TIME, key .ZONE]), many (row [tok .lbracket, tok .rbracket])]]
  | .anyName => [alt (tok .string) (row [label, dotted])]
  | .exprList => [list (one .aExprOr)]
  | .indirection =>
    [many (alt (row [tok .lbracket, one .aExprOr, opt (row [tok .colon, one .aExprOr]), tok .rbracket])
      (row [tok .dot, any]))]
  -- Primary expressions
  | .columnRef =>
    [row [any, many (alt (one .indirection) (row [tok .dot, any])), opt (row [tok .dot, tok .star])]]
  | .constant => [toks [.number, .string, .keyword .TRUE, .keyword .FALSE, .keyword .NULL, .keyword .DEFAULT]]
  | .typedConstant => [row [one .typename, tok .string]]
  | .param => [tok .param]
  | .parenExpr => [parens (one .aExprOr)]
  | .implicitRow =>
    [row [tok .lparen, one .aExprOr, tok .comma, one .aExprOr, many (row [tok .comma, one .aExprOr]), tok .rparen]]
  | .selectExpr => [row [one .selectWithParens, opt (one .indirection)]]
  | .existsExpr => [row [key .EXISTS, one .selectWithParens]]
  | .caseExpr =>
    [row [key .CASE, alt empty (one .aExprOr), one .whenClause, many (one .whenClause), opt (one .elseClause),
      key .END]]
  | .whenClause => [row [any, one .aExprOr, key .THEN, one .aExprOr]]
  | .elseClause => [row [key .ELSE, one .aExprOr]]
  | .funcCall =>
    [row [one .funcName, one .funcArgs, opt (one .withinGroup), opt (one .filterClause), opt (one .nullTreatment),
      opt (one .overClause)]]
  | .funcName => [row [any, dotted]]
  | .funcArgs =>
    [parens (row [opt (keys [.ALL, .DISTINCT]), alt (tok .star) (alt empty (one .exprList)), opt (one .sortClause),
      opt (one .nullTreatment)])]
  | .withinGroup => [row [key .WITHIN, key .GROUP, parens (one .sortClause)]]
  | .filterClause => [row [key .FILTER, tok .lparen, key .WHERE, one .aExprOr, tok .rparen]]
  | .nullTreatment => [row [keys [.IGNORE, .RESPECT], key .NULLS]]
  | .overClause => [row [key .OVER, alt (one .windowSpec) ident]]
  | .windowSpec =>
    [parens (row [opt any, opt (one .partitionClause), opt (one .sortClause), opt (one .frameClause)])]
  | .partitionClause => [row [key .PARTITION, key .BY, one .exprList]]
  | .castFunc => [row [key .CAST, parens (row [one .aExprOr, key .AS, one .typename])]]
  | .commonFuncCall =>
    [any,
     row [any, parens (row [opt any, markedArguments Grammar.Symbol.argumentMarks])],
     row [any, parens (row [alt empty (alt (toks positionMarks) (one .aExprUnaryNot)),
      markedArguments positionMarks])],
     row [any, parens (markedArguments Grammar.Symbol.argumentMarks)]]

end Rule
end TableLineage
