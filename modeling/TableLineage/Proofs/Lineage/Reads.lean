import TableLineage.Proofs.Lineage.Scope
import TableLineage.Statement.Phrase

/-! Which tables a statement reads, said by rules. A query comes to tables at its leaves,
and the tables of its `WITH` clause stand between a leaf and the base tables behind it. -/
namespace TableLineage

open List

/-- Where a phrase comes to tables: at a table by its name, or at a query. -/
inductive Leaf where
  | table (name : String)
  | query (q : Query)

/-- Where the body of a query writes a table: at an `INTO` over what it reads, or in a query. -/
inductive Outlet where
  | into (name : String) (leaves : List Leaf)
  | query (q : Query)

namespace Phrase

/-- The leaves of a phrase. Of a block these are its sources without the conditions of
joins, its targets and the three conditions on its rows; rows of values have none. -/
def leaves {c : Category} : Phrase c → List Leaf
  | .none | .nil | .hole => []
  | .some x => x.leaves
  | .cons x xs => x.leaves ++ xs.leaves
  -- Statements
  | .select q | .insert _ _ _ q _ | .createTableAs _ _ _ _ _ _ q | .createView _ _ _ _ _ _ q => [.query q]
  | .delete _ _ _ us f => us.leaves ++ f.leaves
  | .alterRename _ n _ => [.table n]
  | .createTable .. | .drop .. => []
  -- Queries
  | .query s w b o l f => [.query (.query s w b o l f)]
  | .withs .. | .cte .. => []
  | .core _ _ _ _ ts _ src f _ h q _ => src.leaves ++ (ts.leaves ++ (f.leaves ++ (h.leaves ++ q.leaves)))
  | .combine _ _ _ l r => l.leaves ++ r.leaves
  | .values .. => []
  | .nested _ q => [.query q]
  | .star .. => []
  | .labelled _ e _ => e.leaves
  -- Sources
  | .sources _ items => items.leaves
  | .sourceItem _ s js => s.leaves ++ js.leaves
  | .table t => [.table t.name]
  | .subquery _ q _ => [.query q]
  | .parens _ i _ => i.leaves
  | .crossJoin _ t | .qualifiedJoin _ _ _ _ t _ => t.leaves
  | .joinOn _ e => e.leaves
  | .joinUsing .. => []
  -- Order and windows
  | .sort _ items => items.leaves
  | .sortItem _ e _ _ => e.leaves
  | .windowDef _ _ w => w.leaves
  | .window _ _ p o _ => p.leaves ++ o.leaves
  | .overName .. => []
  | .overWindow w => w.leaves
  -- Expressions
  | .binary _ l _ r => l.leaves ++ r.leaves
  | .between _ t l u _ _ => t.leaves ++ l.leaves ++ u.leaves
  | .within _ t s _ => t.leaves ++ s.leaves
  | .inValues _ xs | .column _ _ _ xs | .row _ xs | .special _ _ xs => xs.leaves
  | .inQuery _ q | .quantifiedQuery _ _ q | .nonempty _ q => [.query q]
  | .like _ t p _ _ e => t.leaves ++ p.leaves ++ e.leaves
  | .unary _ _ e | .quantifiedExpr _ _ e | .collate _ e _ | .cast _ e _ => e.leaves
  | .scalar _ q _ xs => .query q :: xs.leaves
  | .constant .. => []
  | .choice _ x ws e => x.leaves ++ ws.leaves ++ e.leaves
  | .when _ c r => c.leaves ++ r.leaves
  | .call _ _ xs _ _ _ _ o g f v => xs.leaves ++ o.leaves ++ g.leaves ++ f.leaves ++ v.leaves

/-- The outlets of a query or a body. -/
def outlets {c : Category} : Phrase c → List Outlet
  | .query s w b o l f => [.query (.query s w b o l f)]
  | .core s d on top ts into src f g h q ws =>
    into.toList.map fun i => .into i.name (Phrase.core s d on top ts into src f g h q ws).leaves
  | .combine _ _ _ l r => l.outlets ++ r.outlets
  | .nested _ q => [.query q]
  | _ => []

/-- The tables that a query or a body writes. -/
def written {c : Category} : Phrase c → List String
  | .query _ _ b _ _ _ => b.written
  | .core _ _ _ _ _ into _ _ _ _ _ _ => into.toList.map (·.name)
  | .combine _ _ _ l r => l.written ++ r.written
  | .nested _ q => q.written
  | _ => []

/-- The names that a table of a `WITH` clause binds: its own and those that its query writes. -/
def binds : Phrase .cte → List String
  | .cte _ n _ q => n :: q.written

/-- The tables of a `WITH` clause in the order of their declaration. -/
def tables : Phrase (.maybe .withs) → List (Phrase .cte)
  | .none => []
  | .some (.withs _ _ ts) => ts.toList

end Phrase

/-- The names that tables of a `WITH` clause bind. -/
def boundBy (ts : List (Phrase .cte)) : List String := ts.flatMap Phrase.binds

mutual

/-- A leaf reads a base table. -/
inductive Leaf.Reads : Leaf → String → Prop
  | table (n : String) : Leaf.Reads (.table n) n
  | query {s w b o l f} {leaf : Leaf} {m n : String} (member : leaf ∈ b.leaves) (read : leaf.Reads m)
      (behind : StandsFor w.tables m n) : Leaf.Reads (.query (.query s w b o l f)) n

/-- A base table feeds a table that an outlet writes. -/
inductive Outlet.Feeds : Outlet → String → String → Prop
  | into {leaves : List Leaf} {leaf : Leaf} {k n : String} (member : leaf ∈ leaves) (read : leaf.Reads n) :
      Outlet.Feeds (.into k leaves) k n
  | query {s w b o l f} {outlet : Outlet} {k m n : String} (member : outlet ∈ b.outlets)
      (fed : outlet.Feeds k m) (behind : StandsFor w.tables m n) : Outlet.Feeds (.query (.query s w b o l f)) k n

/-- A name that tables of a `WITH` clause bind has a base table behind it. What a table of
the clause reads is looked for among those declared before it. -/
inductive Supplies : List (Phrase .cte) → String → String → Prop
  | name {ts before after s k cs q} {m n : String} (split : ts = before ++ Phrase.cte s k cs q :: after)
      (read : Leaf.Reads (.query q) m) (behind : StandsFor before m n) : Supplies ts k n
  | into {ts before after s c cs q} {k m n : String} (split : ts = before ++ Phrase.cte s c cs q :: after)
      (fed : Outlet.Feeds (.query q) k m) (behind : StandsFor before m n) : Supplies ts k n

/-- The base tables of a name under a `WITH` clause: itself, unless the clause binds it. -/
inductive StandsFor : List (Phrase .cte) → String → String → Prop
  | base {ts : List (Phrase .cte)} {n : String} (unbound : n ∉ boundBy ts) : StandsFor ts n n
  | bound {ts : List (Phrase .cte)} {m n : String} (supplied : Supplies ts m n) : StandsFor ts m n

end

/-- The `WITH` clause of an insert or a delete; in other statements it belongs to the query. -/
def Statement.clause : Statement → List (Phrase .cte)
  | .insert _ w _ _ _ | .delete _ w _ _ _ => w.tables
  | _ => []

/-- A statement reads a base table: some leaf does, past the clause of the statement. -/
def Statement.Reads (s : Statement) (n : String) : Prop :=
  ∃ leaf ∈ s.leaves, ∃ m, leaf.Reads m ∧ StandsFor s.clause m n

variable {k n : String}

namespace Leaf

theorem reads_table : (table k).Reads n ↔ n = k := by
  constructor
  · rintro ⟨⟩
    rfl
  · rintro rfl
    exact .table n

theorem reads_query {s w b o l f} : (query (.query s w b o l f)).Reads n ↔
    ∃ m, (∃ leaf ∈ b.leaves, leaf.Reads m) ∧ StandsFor w.tables m n := by
  constructor
  · rintro (_ | ⟨member, read, behind⟩)
    exact ⟨_, ⟨_, member, read⟩, behind⟩
  · rintro ⟨m, ⟨leaf, member, read⟩, behind⟩
    exact .query member read behind

end Leaf

namespace Outlet

/-- The tables that an outlet writes. -/
def names : Outlet → List String
  | into name _ => [name]
  | query q => q.written

theorem feeds_into {name : String} {leaves : List Leaf} :
    (into name leaves).Feeds k n ↔ k = name ∧ ∃ leaf ∈ leaves, leaf.Reads n := by
  constructor
  · rintro ⟨member, read⟩
    exact ⟨rfl, _, member, read⟩
  · rintro ⟨rfl, leaf, member, read⟩
    exact .into member read

theorem feeds_query {s w b o l f} : (query (.query s w b o l f)).Feeds k n ↔
    ∃ m, (∃ outlet ∈ b.outlets, outlet.Feeds k m) ∧ StandsFor w.tables m n := by
  constructor
  · rintro (_ | ⟨member, fed, behind⟩)
    exact ⟨_, ⟨_, member, fed⟩, behind⟩
  · rintro ⟨m, ⟨outlet, member, fed⟩, behind⟩
    exact .query member fed behind

end Outlet

theorem Phrase.written_eq_names {c : Category} (p : Phrase c) : p.written = p.outlets.flatMap Outlet.names := by
  induction p with
  | combine _ _ _ l r left right => simp [written, outlets, left, right]
  | query | nested => simp [written, outlets, Outlet.names]
  | core _ _ _ _ _ into => cases into <;> rfl
  | _ => rfl

/-- An outlet feeds no table but those it writes. -/
theorem Outlet.Feeds.mem_names {outlet : Outlet} {k n : String} : outlet.Feeds k n → k ∈ outlet.names
  | .into _ _ => mem_singleton_self k
  | .query (b := b) member fed _ => by
    have written : k ∈ b.written := by
      rw [b.written_eq_names]
      exact mem_flatMap_of_mem member fed.mem_names
    exact written

/-- A clause has tables behind no name but those it binds. -/
theorem Supplies.mem_boundBy {ts : List (Phrase .cte)} (supplied : Supplies ts k n) : k ∈ boundBy ts := by
  obtain ⟨rfl, _, _⟩ | ⟨rfl, fed, _⟩ := supplied
  · simp [boundBy, Phrase.binds]
  · have written := fed.mem_names
    simp only [Outlet.names] at written
    simp [boundBy, Phrase.binds, written]

theorem standsFor_iff {ts : List (Phrase .cte)} {m : String} :
    StandsFor ts m n ↔ (n = m ∧ m ∉ boundBy ts) ∨ Supplies ts m n := by
  constructor
  · rintro (⟨unbound⟩ | ⟨supplied⟩)
    · exact .inl ⟨rfl, unbound⟩
    · exact .inr supplied
  · rintro (⟨rfl, unbound⟩ | supplied)
    · exact .base unbound
    · exact .bound supplied

/-- A member of a list with one more at its end is that last one or a member before it. -/
theorem append_single_eq_append_cons {α : Type} {front before after : List α} {last x : α}
    (split : front ++ [last] = before ++ x :: after) :
    (front = before ∧ last = x) ∨ ∃ rest, front = before ++ x :: rest := by
  obtain rfl | ⟨rest, y, rfl⟩ := eq_nil_or_concat after
  · obtain ⟨same, last⟩ := append_inj' split rfl
    exact .inl ⟨same, singleton_inj.1 last⟩
  · rw [concat_eq_append, ← cons_append, ← append_assoc] at split
    exact .inr ⟨rest, (append_inj' split rfl).1⟩

/-- The last table of a clause sees all the others. -/
theorem supplies_append_single {before : List (Phrase .cte)} {s c cs q} :
    Supplies (before ++ [.cte s c cs q]) k n ↔
      Supplies before k n ∨ (k = c ∧ ∃ m, (Leaf.query q).Reads m ∧ StandsFor before m n) ∨
        ∃ m, (Outlet.query q).Feeds k m ∧ StandsFor before m n := by
  constructor
  · intro supplied
    cases supplied with
    | name split read behind =>
      obtain ⟨rfl, same⟩ | ⟨rest, earlier⟩ := append_single_eq_append_cons split
      · cases same
        exact .inr (.inl ⟨rfl, _, read, behind⟩)
      · exact .inl (.name earlier read behind)
    | into split fed behind =>
      obtain ⟨rfl, same⟩ | ⟨rest, earlier⟩ := append_single_eq_append_cons split
      · cases same
        exact .inr (.inr ⟨_, fed, behind⟩)
      · exact .inl (.into earlier fed behind)
  · rintro (supplied | ⟨rfl, m, read, behind⟩ | ⟨m, fed, behind⟩)
    · cases supplied with
      | name split read behind => exact .name (by rw [split, append_assoc, cons_append]) read behind
      | into split fed behind => exact .into (by rw [split, append_assoc, cons_append]) fed behind
    · exact .name rfl read behind
    · exact .into rfl fed behind

end TableLineage
