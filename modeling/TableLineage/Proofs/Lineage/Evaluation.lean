import TableLineage.Lineage.Extract
import TableLineage.Proofs.Lineage.Scope

/-! A second account of lineage: statements evaluated in scopes, from the outside in.
Every table is looked up once, in the scope of the place where it stands. Lineage
replaces names afterwards, from the inside out, and comes to the same. -/
namespace TableLineage

/-- What a phrase gives once it is told its scope. -/
abbrev Value : Category → Type
  | .statement => Meaning
  | .query | .body => Scope → Meaning
  -- What a `WITH` clause binds, and what it has bound after one more of its tables.
  | .withs => Scope → Scope
  | .cte => Scope → Scope → Scope
  | .many c => List (Value c)
  | .maybe c => Option (Value c)
  | .target | .sort | .sortItem | .windowDef | .window | .overClause | .sources | .sourceItem | .source | .join
  | .condition | .expr | .inSource | .when => Scope → Set String

/-- The bindings of an optional `WITH` clause. -/
def bindings (withs : Option (Scope → Scope)) : Scope → Scope := withs.getD fun _ => .nothing

/-- The tables of all members of a row. -/
def across (row : List (Scope → Set String)) (ρ : Scope) : Set String := {t | ∃ v ∈ row, t ∈ v ρ}

/-- The tables of a part that may be missing. -/
def ifThere (part : Option (Scope → Set String)) : Scope → Set String := part.getD fun _ => ∅

/-- A table made from a query, beside what the query writes on its own account. -/
def Meaning.made (name : String) (query : Meaning) : Meaning :=
  ⟨query.reads, (Scope.only name query.reads).join query.writes⟩

namespace Phrase

/-- The meaning of a phrase. -/
def eval : (c : Category) → Phrase c → Value c
  | .maybe _, .none => Option.none
  | .maybe c, .some x => Option.some (eval c x)
  | .many _, .nil => []
  | .many c, .cons x xs => eval c x :: eval (.many c) xs
  -- Statements
  | _, .select q => eval .query q .nothing
  | _, .insert _ w t q _ =>
    let read := (eval .query q (bindings (eval (.maybe .withs) w) .nothing)).reads
    -- What the query writes on its own account is not told of the tables of the insert.
    ⟨read, (Scope.only t.name read).join (eval .query q .nothing).writes⟩
  | _, .delete _ w t us f =>
    let ρ := bindings (eval (.maybe .withs) w) .nothing
    let read := across (eval (.many .sourceItem) us) ρ ∪ ifThere (eval (.maybe .expr) f) ρ
    ⟨read, .only t.name read⟩
  | _, .createTableAs _ n _ _ _ _ q => (eval .query q .nothing).made n
  | _, .createView _ n _ _ _ _ q => (eval .query q .nothing).made n
  | _, .alterRename _ n m => ⟨{n}, .only (schemaOf n ++ m) {n}⟩
  | _, .createTable .. => ⟨∅, .nothing⟩
  | _, .drop .. => ⟨∅, .nothing⟩
  -- Queries
  | _, .query _ w b _ _ _ => fun ρ => eval .body b ((bindings (eval (.maybe .withs) w) ρ).atop ρ)
  | _, .withs _ _ ts => fun ρ => (eval (.many .cte) ts).foldl (fun bound add => add ρ bound) .nothing
  | _, .cte _ n _ q => fun ρ bound =>
    let query := eval .query q (bound.atop ρ)
    (bound.join (.only n query.reads)).join query.writes
  | _, .core _ _ _ _ ts into src f _ h q _ => fun ρ =>
    let read := ifThere (eval (.maybe .sources) src) ρ ∪ (across (eval (.many .target) ts) ρ ∪
      (ifThere (eval (.maybe .expr) f) ρ ∪ (ifThere (eval (.maybe .expr) h) ρ ∪ ifThere (eval (.maybe .expr) q) ρ)))
    ⟨read, (into.map fun i => Scope.only i.name read).getD .nothing⟩
  | _, .combine _ _ _ l r => fun ρ => (eval .body l ρ).join (eval .body r ρ)
  | _, .values .. => fun _ => ⟨∅, .nothing⟩
  | _, .nested _ q => eval .query q
  | _, .star .. => fun _ => ∅
  | _, .labelled _ e _ => eval .expr e
  -- Sources
  | _, .sources _ items => across (eval (.many .sourceItem) items)
  | _, .sourceItem _ s js => fun ρ => eval .source s ρ ∪ across (eval (.many .join) js) ρ
  | _, .table t => fun ρ => ρ.tables t.name
  | _, .subquery _ q _ => fun ρ => (eval .query q ρ).reads
  | _, .parens _ i _ => eval .sourceItem i
  | _, .crossJoin _ t => eval .sourceItem t
  | _, .qualifiedJoin _ _ _ _ t _ => eval .sourceItem t
  | _, .joinOn _ e => eval .expr e
  | _, .joinUsing .. => fun _ => ∅
  -- Order and windows
  | _, .sort _ items => across (eval (.many .sortItem) items)
  | _, .sortItem _ e _ _ => eval .expr e
  | _, .windowDef _ _ w => eval .window w
  | _, .window _ _ p o _ => fun ρ => across (eval (.many .expr) p) ρ ∪ ifThere (eval (.maybe .sort) o) ρ
  | _, .overName .. => fun _ => ∅
  | _, .overWindow w => eval .window w
  -- Expressions: the queries inside them are evaluated in the same scope
  | _, .hole => fun _ => ∅
  | _, .binary _ l _ r => fun ρ => eval .expr l ρ ∪ eval .expr r ρ
  | _, .unary _ _ e => eval .expr e
  | _, .between _ t l u _ _ => fun ρ => (eval .expr t ρ ∪ eval .expr l ρ) ∪ eval .expr u ρ
  | _, .within _ t s _ => fun ρ => eval .expr t ρ ∪ eval .inSource s ρ
  | _, .inValues _ xs => across (eval (.many .expr) xs)
  | _, .inQuery _ q => fun ρ => (eval .query q ρ).reads
  | _, .like _ t p _ _ e => fun ρ => (eval .expr t ρ ∪ eval .expr p ρ) ∪ ifThere (eval (.maybe .expr) e) ρ
  | _, .quantifiedQuery _ _ q => fun ρ => (eval .query q ρ).reads
  | _, .quantifiedExpr _ _ e => eval .expr e
  | _, .collate _ e _ => eval .expr e
  | _, .cast _ e _ => eval .expr e
  | _, .nonempty _ q => fun ρ => (eval .query q ρ).reads
  | _, .scalar _ q _ xs => fun ρ => (eval .query q ρ).reads ∪ across (eval (.many .expr) xs) ρ
  | _, .column _ _ _ xs => across (eval (.many .expr) xs)
  | _, .constant .. => fun _ => ∅
  | _, .row _ xs => across (eval (.many .expr) xs)
  | _, .choice _ x ws e => fun ρ =>
    (ifThere (eval (.maybe .expr) x) ρ ∪ across (eval (.many .when) ws) ρ) ∪ ifThere (eval (.maybe .expr) e) ρ
  | _, .when _ c r => fun ρ => eval .expr c ρ ∪ eval .expr r ρ
  | _, .call _ _ xs _ _ _ _ o g f v => fun ρ =>
    (((across (eval (.many .expr) xs) ρ ∪ ifThere (eval (.maybe .sort) o) ρ) ∪ ifThere (eval (.maybe .sort) g) ρ) ∪
      ifThere (eval (.maybe .expr) f) ρ) ∪ ifThere (eval (.maybe .overClause) v) ρ
  | _, .special _ _ xs => across (eval (.many .expr) xs)
  termination_by structural _ p => p

end Phrase
end TableLineage
