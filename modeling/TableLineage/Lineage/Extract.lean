import TableLineage.Lineage.Record
import TableLineage.Statement.Phrase

/-! The lineage of statements. Tables of a `WITH` clause are resolved in the order
of their declaration, so what is left are base tables. Expressions count with the
tables that the queries inside them read. -/
namespace TableLineage

/-- What lineage keeps of a phrase: a record of the parts that may write, the
tables read of the others. -/
abbrev Trace : Category → Type
  | .statement | .query | .withs | .body | .sources | .sourceItem | .source | .join => Record
  -- A table of a `WITH` clause adds to those declared before it.
  | .cte => Record → Record
  | .many c => List (Trace c)
  | .maybe c => Option (Trace c)
  | .target | .sort | .sortItem | .windowDef | .window | .overClause | .condition | .expr | .inSource | .when => Names

def declared (withs : Option Record) : KeyMap Names := (withs.getD .empty).sinks

/-- A written table fed by what a query reads, and the tables written inside the query. -/
def createdFrom (name : String) (query : Record) : Record :=
  (Record.writing name query.sources).mergeOnlySinks query

/-- The part of a name up to its last dot, the dot included. -/
def schemaOf (name : String) : String :=
  String.ofList (name.toList.reverse.dropWhile (· ≠ '.')).reverse

/-- A renamed table is fed by itself under its old name and stays in its schema. -/
def renamed (name newName : String) : Record := .writing (schemaOf name ++ newName) (.single name)

def merged (records : List Record) : Record := records.foldl Record.merge .empty

def namesOf (names : Option Names) : Names := names.getD .empty

namespace Phrase

def trace : (c : Category) → Phrase c → Trace c
  | .maybe _, .none => Option.none
  | .maybe c, .some x => Option.some (trace c x)
  | .many _, .nil => []
  | .many c, .cons x xs => trace c x :: trace (.many c) xs
  -- Statements
  | _, .select q => trace .query q
  | _, .insert _ w t q _ =>
    let query := trace .query q
    ((Record.writing t.name query.sources).resolve (declared (trace (.maybe .withs) w))).mergeOnlySinks query
  | _, .delete _ w t us f =>
    let read := (Names.unions ((trace (.many .sourceItem) us).map Record.sources)).union
      (namesOf (trace (.maybe .expr) f))
    (Record.writing t.name read).resolve (declared (trace (.maybe .withs) w))
  | _, .createTableAs _ n _ _ _ _ q => createdFrom n (trace .query q)
  | _, .createView _ n _ _ _ _ q => createdFrom n (trace .query q)
  | _, .alterRename _ n m => renamed n m
  | _, .createTable .. => Record.empty
  | _, .drop .. => Record.empty
  -- Queries
  | _, .query _ w b _ _ _ => (trace .body b).resolve (declared (trace (.maybe .withs) w))
  | _, .withs _ _ ts => (trace (.many .cte) ts).foldl (fun tables add => add tables) Record.empty
  | _, .cte _ n _ q => fun tables =>
    let query := (trace .query q).resolve tables.sinks
    (tables.merge (.writing n query.sources)).merge query
  | _, .core _ _ _ _ ts into src f _ h q _ =>
    let read := ((trace (.maybe .sources) src).getD .empty).merge
      (.reading ((Names.unions (trace (.many .target) ts)).union
        ((namesOf (trace (.maybe .expr) f)).union
          ((namesOf (trace (.maybe .expr) h)).union (namesOf (trace (.maybe .expr) q))))))
    match into with
    | .some i => read.merge ⟨.single i.name read.sources, .empty, .none⟩
    | .none => read
  | _, .combine _ _ _ l r => (trace .body l).merge (trace .body r)
  | _, .values .. => Record.empty
  | _, .nested _ q => trace .query q
  | _, .star .. => Names.empty
  | _, .labelled _ e _ => trace .expr e
  -- Sources; the conditions of joins are left out
  | _, .sources _ items => merged (trace (.many .sourceItem) items)
  | _, .sourceItem _ s js => (trace (.many .join) js).foldl Record.merge (trace .source s)
  | _, .table t => Record.reading (.single t.name)
  | _, .subquery _ q _ => Record.reading (trace .query q).sources
  | _, .parens _ i _ => trace .sourceItem i
  | _, .crossJoin _ t => trace .sourceItem t
  | _, .qualifiedJoin _ _ _ _ t _ => trace .sourceItem t
  | _, .joinOn _ e => trace .expr e
  | _, .joinUsing .. => Names.empty
  -- Order and windows
  | _, .sort _ items => Names.unions (trace (.many .sortItem) items)
  | _, .sortItem _ e _ _ => trace .expr e
  | _, .windowDef _ _ w => trace .window w
  | _, .window _ _ p o _ => (Names.unions (trace (.many .expr) p)).union (namesOf (trace (.maybe .sort) o))
  | _, .overName .. => Names.empty
  | _, .overWindow w => trace .window w
  -- Expressions
  | _, .hole => Names.empty
  | _, .binary _ l _ r => (trace .expr l).union (trace .expr r)
  | _, .unary _ _ e => trace .expr e
  | _, .between _ t l u _ _ => ((trace .expr t).union (trace .expr l)).union (trace .expr u)
  | _, .within _ t s _ => (trace .expr t).union (trace .inSource s)
  | _, .inValues _ xs => Names.unions (trace (.many .expr) xs)
  | _, .inQuery _ q => (trace .query q).sources
  | _, .like _ t p _ _ e => ((trace .expr t).union (trace .expr p)).union (namesOf (trace (.maybe .expr) e))
  | _, .quantifiedQuery _ _ q => (trace .query q).sources
  | _, .quantifiedExpr _ _ e => trace .expr e
  | _, .collate _ e _ => trace .expr e
  | _, .cast _ e _ => trace .expr e
  | _, .nonempty _ q => (trace .query q).sources
  | _, .scalar _ q _ xs => (trace .query q).sources.union (Names.unions (trace (.many .expr) xs))
  | _, .column _ _ _ xs => Names.unions (trace (.many .expr) xs)
  | _, .constant .. => Names.empty
  | _, .row _ xs => Names.unions (trace (.many .expr) xs)
  | _, .choice _ x ws e =>
    ((namesOf (trace (.maybe .expr) x)).union (Names.unions (trace (.many .when) ws))).union
      (namesOf (trace (.maybe .expr) e))
  | _, .when _ c r => (trace .expr c).union (trace .expr r)
  | _, .call _ _ xs _ _ _ _ o g f v =>
    ((((Names.unions (trace (.many .expr) xs)).union (namesOf (trace (.maybe .sort) o))).union
      (namesOf (trace (.maybe .sort) g))).union (namesOf (trace (.maybe .expr) f))).union
      (namesOf (trace (.maybe .overClause) v))
  | _, .special _ _ xs => Names.unions (trace (.many .expr) xs)
  termination_by structural _ p => p

end Phrase

namespace Statement

def flow (s : Statement) : Record := Phrase.trace .statement s

def record (s : Statement) : Record :=
  match TextRange.ofSpan? s.span with
  | some r => s.flow.withContext ⟨none, some r⟩
  | none => s.flow

end Statement

def scriptRecord (statements : List Statement) : Record :=
  if statements.isEmpty then .empty
  else
    let range := (statements.map fun s => TextRange.ofSpan? s.span).foldl TextRange.cover? none
    (merged (statements.map Statement.record)).withContext ⟨none, range⟩

end TableLineage
