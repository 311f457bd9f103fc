/-! The rules of the grammar: which production a node of a parse tree comes from.
The groups are scripts and statements, parts of statements, queries, the ladder of
expression levels from the loosest to the tightest, parts of expressions, and
primary expressions. -/
namespace TableLineage

inductive Rule where
  | root | stmt | selectStmt | insertStmt | deleteStmt | createTableAsStmt | createViewStmt
  | createTableStmt | alterRenameStmt | dropStmt | otherStmt
  | insertTarget | columnList | deleteTarget | deleteUsing | tableAttributes
  | columnDefinitions | viewOptions | qualifiedName | nameList
  | selectWithParens | withClause | commonTableExpr | selectClause | simpleSelectIntersect
  | simpleSelect | valuesClause | valuesRow | setOperator | topClause | targetList | targetStar
  | targetLabel | intoClause | fromClause | tableRef | relationExpr | nestedTableRef
  | aliasClause | crossJoin | qualifiedJoin | naturalJoin | joinType | joinOn | joinUsing
  | whereClause | groupClause | havingClause | qualifyClause | windowClause | windowDefinition
  | sortClause | sortBy | limitClause | offsetClause
  | aExprOr | aExprAnd | aExprBetween | aExprIn | aExprUnaryNot | aExprIsNull | aExprIsNot
  | aExprCompare | aExprLike | aExprQualOp | aExprUnaryQualOp | aExprAdd | aExprMul
  | aExprCaret | aExprUnarySign | aExprAtTimeZone | aExprCollate | aExprTypecast
  | inList | subqueryQuantifier | qualOp | typename | anyName | exprList | indirection
  | columnRef | constant | typedConstant | param | parenExpr | implicitRow | selectExpr
  | existsExpr | caseExpr | whenClause | elseClause | funcCall | funcName | funcArgs
  | withinGroup | filterClause | nullTreatment | overClause | windowSpec | partitionClause
  | frameClause | castFunc | commonFuncCall
  deriving DecidableEq, Repr

namespace Rule

def all : List Rule :=
  [.root, .stmt, .selectStmt, .insertStmt, .deleteStmt, .createTableAsStmt, .createViewStmt,
   .createTableStmt, .alterRenameStmt, .dropStmt, .otherStmt, .insertTarget, .columnList,
   .deleteTarget, .deleteUsing, .tableAttributes, .columnDefinitions, .viewOptions,
   .qualifiedName, .nameList, .selectWithParens, .withClause, .commonTableExpr, .selectClause,
   .simpleSelectIntersect, .simpleSelect, .valuesClause, .valuesRow, .setOperator, .topClause,
   .targetList, .targetStar, .targetLabel, .intoClause, .fromClause, .tableRef, .relationExpr,
   .nestedTableRef, .aliasClause, .crossJoin, .qualifiedJoin, .naturalJoin, .joinType, .joinOn,
   .joinUsing, .whereClause, .groupClause, .havingClause, .qualifyClause, .windowClause,
   .windowDefinition, .sortClause, .sortBy, .limitClause, .offsetClause, .aExprOr, .aExprAnd,
   .aExprBetween, .aExprIn, .aExprUnaryNot, .aExprIsNull, .aExprIsNot, .aExprCompare,
   .aExprLike, .aExprQualOp, .aExprUnaryQualOp, .aExprAdd, .aExprMul, .aExprCaret,
   .aExprUnarySign, .aExprAtTimeZone, .aExprCollate, .aExprTypecast, .inList,
   .subqueryQuantifier, .qualOp, .typename, .anyName, .exprList, .indirection, .columnRef,
   .constant, .typedConstant, .param, .parenExpr, .implicitRow, .selectExpr, .existsExpr,
   .caseExpr, .whenClause, .elseClause, .funcCall, .funcName, .funcArgs, .withinGroup,
   .filterClause, .nullTreatment, .overClause, .windowSpec, .partitionClause, .frameClause,
   .castFunc, .commonFuncCall]

def name : Rule → String
  | .root => "Root"
  | .stmt => "Stmt"
  | .selectStmt => "SelectStmt"
  | .insertStmt => "InsertStmt"
  | .deleteStmt => "DeleteStmt"
  | .createTableAsStmt => "CreateTableAsStmt"
  | .createViewStmt => "CreateViewStmt"
  | .createTableStmt => "CreateTableStmt"
  | .alterRenameStmt => "AlterRenameStmt"
  | .dropStmt => "DropStmt"
  | .otherStmt => "OtherStmt"
  | .insertTarget => "InsertTarget"
  | .columnList => "ColumnList"
  | .deleteTarget => "DeleteTarget"
  | .deleteUsing => "DeleteUsing"
  | .tableAttributes => "TableAttributes"
  | .columnDefinitions => "ColumnDefinitions"
  | .viewOptions => "ViewOptions"
  | .qualifiedName => "QualifiedName"
  | .nameList => "NameList"
  | .selectWithParens => "SelectWithParens"
  | .withClause => "WithClause"
  | .commonTableExpr => "CommonTableExpr"
  | .selectClause => "SelectClause"
  | .simpleSelectIntersect => "SimpleSelectIntersect"
  | .simpleSelect => "SimpleSelect"
  | .valuesClause => "ValuesClause"
  | .valuesRow => "ValuesRow"
  | .setOperator => "SetOperator"
  | .topClause => "TopClause"
  | .targetList => "TargetList"
  | .targetStar => "TargetStar"
  | .targetLabel => "TargetLabel"
  | .intoClause => "IntoClause"
  | .fromClause => "FromClause"
  | .tableRef => "TableRef"
  | .relationExpr => "RelationExpr"
  | .nestedTableRef => "NestedTableRef"
  | .aliasClause => "AliasClause"
  | .crossJoin => "CrossJoin"
  | .qualifiedJoin => "QualifiedJoin"
  | .naturalJoin => "NaturalJoin"
  | .joinType => "JoinType"
  | .joinOn => "JoinOn"
  | .joinUsing => "JoinUsing"
  | .whereClause => "WhereClause"
  | .groupClause => "GroupClause"
  | .havingClause => "HavingClause"
  | .qualifyClause => "QualifyClause"
  | .windowClause => "WindowClause"
  | .windowDefinition => "WindowDefinition"
  | .sortClause => "SortClause"
  | .sortBy => "SortBy"
  | .limitClause => "LimitClause"
  | .offsetClause => "OffsetClause"
  | .aExprOr => "AExprOr"
  | .aExprAnd => "AExprAnd"
  | .aExprBetween => "AExprBetween"
  | .aExprIn => "AExprIn"
  | .aExprUnaryNot => "AExprUnaryNot"
  | .aExprIsNull => "AExprIsNull"
  | .aExprIsNot => "AExprIsNot"
  | .aExprCompare => "AExprCompare"
  | .aExprLike => "AExprLike"
  | .aExprQualOp => "AExprQualOp"
  | .aExprUnaryQualOp => "AExprUnaryQualOp"
  | .aExprAdd => "AExprAdd"
  | .aExprMul => "AExprMul"
  | .aExprCaret => "AExprCaret"
  | .aExprUnarySign => "AExprUnarySign"
  | .aExprAtTimeZone => "AExprAtTimeZone"
  | .aExprCollate => "AExprCollate"
  | .aExprTypecast => "AExprTypecast"
  | .inList => "InList"
  | .subqueryQuantifier => "SubqueryQuantifier"
  | .qualOp => "QualOp"
  | .typename => "Typename"
  | .anyName => "AnyName"
  | .exprList => "ExprList"
  | .indirection => "Indirection"
  | .columnRef => "ColumnRef"
  | .constant => "Constant"
  | .typedConstant => "TypedConstant"
  | .param => "Param"
  | .parenExpr => "ParenExpr"
  | .implicitRow => "ImplicitRow"
  | .selectExpr => "SelectExpr"
  | .existsExpr => "ExistsExpr"
  | .caseExpr => "CaseExpr"
  | .whenClause => "WhenClause"
  | .elseClause => "ElseClause"
  | .funcCall => "FuncCall"
  | .funcName => "FuncName"
  | .funcArgs => "FuncArgs"
  | .withinGroup => "WithinGroup"
  | .filterClause => "FilterClause"
  | .nullTreatment => "NullTreatment"
  | .overClause => "OverClause"
  | .windowSpec => "WindowSpec"
  | .partitionClause => "PartitionClause"
  | .frameClause => "FrameClause"
  | .castFunc => "CastFunc"
  | .commonFuncCall => "CommonFuncCall"

def ofName? (n : String) : Option Rule := all.find? (·.name == n)

def nameOfNumber (n : Int) : String :=
  match n with
  | .ofNat 0 => "Terminal"
  | .ofNat (k + 1) => (all[k]?.map name).getD s!"Rule({n})"
  | .negSucc _ => s!"Rule({n})"

end Rule
end TableLineage
