import TableLineage.Position
import TableLineage.Statement.Operator

/-! Statements and what they are made of. A phrase belongs to a category, and a
query may stand inside an expression as well as an expression inside a query, so
all categories are read off one family. Every phrase that stands for a part of a
statement records the range of source text it was read from. -/
namespace TableLineage

/-- A table by its name as written, with its schema, and the alias it goes by. -/
structure TableRef where
  span : Span
  name : String
  aliasName : String
  deriving DecidableEq, Repr

structure Into where
  span : Span
  name : String
  temporary : Bool
  deriving DecidableEq, Repr

structure InsertTarget where
  span : Span
  name : String
  aliasName : String
  columns : List String
  deriving DecidableEq, Repr

structure Frame where
  span : Span
  text : String
  deriving DecidableEq, Repr

inductive Category where
  | statement
  | query | withs | cte | body | target
  | sort | sortItem | windowDef | window | overClause
  | sources | sourceItem | source | join | condition
  | expr | inSource | when
  | many (c : Category)
  | maybe (c : Category)
  deriving DecidableEq, Repr

inductive Phrase : Category → Type where
  | none {c : Category} : Phrase (.maybe c)
  | some {c : Category} (x : Phrase c) : Phrase (.maybe c)
  | nil {c : Category} : Phrase (.many c)
  | cons {c : Category} (x : Phrase c) (xs : Phrase (.many c)) : Phrase (.many c)
  -- Statements
  | select (query : Phrase .query) : Phrase .statement
  | insert (span : Span) (withs : Phrase (.maybe .withs)) (target : InsertTarget) (query : Phrase .query)
      (defaultValues : Bool) : Phrase .statement
  | delete (span : Span) (withs : Phrase (.maybe .withs)) (table : TableRef)
      (others : Phrase (.many .sourceItem)) (filter : Phrase (.maybe .expr)) : Phrase .statement
  | createTableAs (span : Span) (name : String) (temporary ifNotExists : Bool) (columns : List String)
      (attributes : String) (query : Phrase .query) : Phrase .statement
  | createView (span : Span) (name : String) (orReplace materialized : Bool) (columns : List String)
      (options : String) (query : Phrase .query) : Phrase .statement
  | createTable (span : Span) (name : String) (temporary ifNotExists : Bool)
      (definitions attributes : String) : Phrase .statement
  | alterRename (span : Span) (name newName : String) : Phrase .statement
  | drop (span : Span) (kind : DropKind) (names : List String) (ifExists : Bool)
      (behavior : Option DropBehavior) : Phrase .statement
  -- Queries
  | query (span : Span) (withs : Phrase (.maybe .withs)) (body : Phrase .body)
      (orderBy : Phrase (.maybe .sort)) (limit offset : Phrase (.maybe .expr)) : Phrase .query
  | withs (span : Span) (recursive : Bool) (tables : Phrase (.many .cte)) : Phrase .withs
  | cte (span : Span) (name : String) (columns : List String) (query : Phrase .query) : Phrase .cte
  | core (span : Span) (distinct : Bool) (distinctOn : Phrase (.many .expr)) (top : Phrase (.maybe .expr))
      (targets : Phrase (.many .target)) (into : Option Into) (sources : Phrase (.maybe .sources))
      (filter : Phrase (.maybe .expr)) (groupBy : Phrase (.many .expr)) (having qualify : Phrase (.maybe .expr))
      (windows : Phrase (.many .windowDef)) : Phrase .body
  | combine (span : Span) (op : SetOp) (modifier : Option SetModifier) (left right : Phrase .body) : Phrase .body
  | values (span : Span) (rows : Phrase (.many (.many .expr))) : Phrase .body
  | nested (span : Span) (query : Phrase .query) : Phrase .body
  | star (span : Span) (qualifier : List String) : Phrase .target
  | labelled (span : Span) (expr : Phrase .expr) (aliasName : String) : Phrase .target
  | sort (span : Span) (items : Phrase (.many .sortItem)) : Phrase .sort
  | sortItem (span : Span) (expr : Phrase .expr) (order : Option SortOrder) (nulls : Option NullsOrder) :
      Phrase .sortItem
  | windowDef (span : Span) (name : String) (window : Phrase .window) : Phrase .windowDef
  | window (span : Span) (name : String) (partitionBy : Phrase (.many .expr)) (orderBy : Phrase (.maybe .sort))
      (frame : Option Frame) : Phrase .window
  | overName (span : Span) (name : String) : Phrase .overClause
  | overWindow (window : Phrase .window) : Phrase .overClause
  -- Sources
  | sources (span : Span) (items : Phrase (.many .sourceItem)) : Phrase .sources
  /-- A source followed by joins, which apply from left to right. -/
  | sourceItem (span : Span) (source : Phrase .source) (joins : Phrase (.many .join)) : Phrase .sourceItem
  | table (table : TableRef) : Phrase .source
  | subquery (span : Span) (query : Phrase .query) (aliasName : String) : Phrase .source
  | parens (span : Span) (item : Phrase .sourceItem) (aliasName : String) : Phrase .source
  | crossJoin (span : Span) (joined : Phrase .sourceItem) : Phrase .join
  | qualifiedJoin (span : Span) (type : Option JoinType) (outer natural : Bool) (joined : Phrase .sourceItem)
      (condition : Phrase (.maybe .condition)) : Phrase .join
  | joinOn (span : Span) (expr : Phrase .expr) : Phrase .condition
  | joinUsing (span : Span) (columns : List String) : Phrase .condition
  -- Expressions
  /-- An operand that the parse tree does not have. -/
  | hole : Phrase .expr
  | binary (span : Span) (left : Phrase .expr) (op : BinaryOp) (right : Phrase .expr) : Phrase .expr
  | unary (span : Span) (op : UnaryOp) (operand : Phrase .expr) : Phrase .expr
  | between (span : Span) (target lower upper : Phrase .expr) (negated symmetric : Bool) : Phrase .expr
  | within (span : Span) (target : Phrase .expr) (source : Phrase .inSource) (negated : Bool) : Phrase .expr
  | inValues (span : Span) (items : Phrase (.many .expr)) : Phrase .inSource
  | inQuery (span : Span) (query : Phrase .query) : Phrase .inSource
  | like (span : Span) (target pattern : Phrase .expr) (op : LikeOp) (negated : Bool)
      (escape : Phrase (.maybe .expr)) : Phrase .expr
  | quantifiedQuery (span : Span) (quantifier : Quantifier) (query : Phrase .query) : Phrase .expr
  | quantifiedExpr (span : Span) (quantifier : Quantifier) (expr : Phrase .expr) : Phrase .expr
  | collate (span : Span) (operand : Phrase .expr) (collation : String) : Phrase .expr
  | cast (span : Span) (operand : Phrase .expr) (type : String) : Phrase .expr
  | nonempty (span : Span) (query : Phrase .query) : Phrase .expr
  | scalar (span : Span) (query : Phrase .query) (fields : List String) (subscripts : Phrase (.many .expr)) :
      Phrase .expr
  | column (span : Span) (names : List String) (star : Bool) (subscripts : Phrase (.many .expr)) : Phrase .expr
  | constant (span : Span) (kind : ConstantKind) (text type : String) : Phrase .expr
  | row (span : Span) (items : Phrase (.many .expr)) : Phrase .expr
  | choice (span : Span) (subject : Phrase (.maybe .expr)) (whens : Phrase (.many .when))
      (otherwise : Phrase (.maybe .expr)) : Phrase .expr
  | when (span : Span) (condition result : Phrase .expr) : Phrase .when
  | call (span : Span) (name : String) (args : Phrase (.many .expr)) (all distinct star : Bool)
      (nulls : Option NullTreatment) (orderBy withinGroup : Phrase (.maybe .sort)) (filter : Phrase (.maybe .expr))
      (windowed : Phrase (.maybe .overClause)) : Phrase .expr
  /-- A function with a form of its own, kept as text with the expressions in it. -/
  | special (span : Span) (text : String) (args : Phrase (.many .expr)) : Phrase .expr

abbrev Statement := Phrase .statement
abbrev Query := Phrase .query
abbrev Expr := Phrase .expr

namespace Phrase

/-- The range of source text; a phrase that stands for no part of its own has none. -/
def span {c : Category} : Phrase c → Span
  | .none | .some _ | .nil | .cons .. | .hole => .none
  | .select q => q.span
  | .overWindow w => w.span
  | .table t => t.span
  | .insert s .. | .delete s .. | .createTableAs s .. | .createView s .. | .createTable s .. | .alterRename s ..
  | .drop s .. | .query s .. | .withs s .. | .cte s .. | .core s .. | .combine s .. | .values s .. | .nested s ..
  | .star s .. | .labelled s .. | .sort s .. | .sortItem s .. | .windowDef s .. | .window s .. | .overName s ..
  | .sources s .. | .sourceItem s .. | .subquery s .. | .parens s .. | .crossJoin s .. | .qualifiedJoin s ..
  | .joinOn s .. | .joinUsing s .. | .binary s .. | .unary s .. | .between s .. | .within s .. | .inValues s ..
  | .inQuery s .. | .like s .. | .quantifiedQuery s .. | .quantifiedExpr s .. | .collate s .. | .cast s ..
  | .nonempty s .. | .scalar s .. | .column s .. | .constant s .. | .row s .. | .choice s .. | .when s ..
  | .call s .. | .special s .. => s

def ofList {c : Category} : List (Phrase c) → Phrase (.many c)
  | [] => .nil
  | x :: xs => .cons x (ofList xs)

/-- The phrases in a row; other phrases hold none. -/
abbrev Items : Category → Type
  | .many c => List (Phrase c)
  | _ => Unit

def items : {c : Category} → Phrase c → Items c
  | .many _, .nil => []
  | .many _, .cons x xs => x :: xs.items
  | .statement, _ | .query, _ | .withs, _ | .cte, _ | .body, _ | .target, _ | .sort, _ | .sortItem, _
  | .windowDef, _ | .window, _ | .overClause, _ | .sources, _ | .sourceItem, _ | .source, _ | .join, _ | .condition, _
  | .expr, _ | .inSource, _ | .when, _ | .maybe _, _ => ()

def toList {c : Category} (xs : Phrase (.many c)) : List (Phrase c) := xs.items

@[simp] theorem toList_nil {c : Category} : (nil : Phrase (.many c)).toList = [] := rfl

@[simp] theorem toList_cons {c : Category} (x : Phrase c) (xs : Phrase (.many c)) :
    (cons x xs).toList = x :: xs.toList := rfl

def ofOption {c : Category} : Option (Phrase c) → Phrase (.maybe c)
  | .none => .none
  | .some x => .some x

def toOption {c : Category} : Phrase (.maybe c) → Option (Phrase c)
  | .none => .none
  | .some x => .some x

@[simp] theorem toList_ofList {c : Category} (xs : List (Phrase c)) : (ofList xs).toList = xs := by
  induction xs with
  | nil => rfl
  | cons x xs ih => simp [ofList, ih]

@[simp] theorem toOption_ofOption {c : Category} (x : Option (Phrase c)) : (ofOption x).toOption = x := by
  cases x <;> rfl

def isHole : Expr → Bool
  | .hole => true
  | _ => false

end Phrase
end TableLineage
