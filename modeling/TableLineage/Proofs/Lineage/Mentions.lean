import TableLineage.Proofs.Lineage.Explained
import TableLineage.Proofs.Statement.Walk

/-! Tables as a walk through a phrase meets them. A walk sees more than lineage looks at, so
whatever is read has been met. -/
namespace TableLineage

open List

namespace Outline

/-- The names of the tables met on a walk. -/
def tableNames (os : List Outline) : List String :=
  ((visitsAll (fun _ => false) os).filter (·.kind = .tableRef)).map (·.name)

@[simp] theorem tableNames_nil : tableNames [] = [] := rfl

@[simp] theorem tableNames_append (os ps : List Outline) : tableNames (os ++ ps) = tableNames os ++ tableNames ps := by
  simp [tableNames, visitsAll_append]

theorem tableNames_subset_node (m : Mark) (os : List Outline) : tableNames os ⊆ tableNames [.node m os] := by
  intro n member
  simp only [tableNames, visitsAll, visits, Bool.false_eq_true, if_false, append_nil, filter_cons]
  split
  · exact mem_cons_of_mem _ member
  · exact member

end Outline

open Outline (tableNames)

/-- The names of the tables that a phrase mentions anywhere. -/
def Phrase.mentioned {c : Category} (p : Phrase c) : List String := tableNames p.outline

def Leaf.mentioned : Leaf → List String
  | table name => [name]
  | query q => q.mentioned

/-- The tables of all leaves are met in the outlines. -/
def Met (leaves : List Leaf) (os : List Outline) : Prop := leaves.flatMap Leaf.mentioned ⊆ tableNames os

namespace Met

theorem nil (os : List Outline) : Met [] os := nil_subset _

theorem query (q : Query) : Met [.query q] q.outline := by
  simp [Met, Leaf.mentioned, Phrase.mentioned]

variable {os : List Outline} {leaves : List Leaf}

theorem node (met : Met leaves os) (m : Mark) : Met leaves [.node m os] :=
  List.Subset.trans met (Outline.tableNames_subset_node m os)

theorem both {front back : List Leaf} (first : Met front os) (second : Met back os) : Met (front ++ back) os := by
  rw [Met, flatMap_append]
  exact append_subset.2 ⟨first, second⟩

theorem left (met : Met leaves os) (ps : List Outline) : Met leaves (os ++ ps) := by
  rw [Met, Outline.tableNames_append]
  exact List.Subset.trans met (subset_append_left _ _)

theorem right {ps : List Outline} (met : Met leaves ps) (os : List Outline) : Met leaves (os ++ ps) := by
  rw [Met, Outline.tableNames_append]
  exact List.Subset.trans met (subset_append_right _ _)

theorem append {front back : List Leaf} {ps : List Outline} (first : Met front os) (second : Met back ps) :
    Met (front ++ back) (os ++ ps) :=
  (first.left ps).both (second.right os)

end Met

/-- Whether phrases of the category are parts of statements. -/
def Category.isInner : Category → Bool
  | .statement => false
  | .many c | .maybe c => c.isInner
  | _ => true

variable {n : String}

namespace Phrase

/-- A renamed table is the only leaf that a walk does not meet, and it is no part of a phrase
inside a statement. -/
theorem leaves_met {c : Category} {p : Phrase c} (inner : c.isInner) : Met p.leaves p.outline := by
  induction p with
  | none | nil | hole => exact .nil _
  | values | withs | cte | star | joinUsing | overName | constant => exact .nil _
  | select | insert | delete | createTableAs | createView | createTable | alterRename | drop => cases inner
  | some _ ih => exact ih inner
  | cons _ _ first rest => exact (first inner).append (rest inner)
  | query => exact Met.query _
  | table t => exact List.Subset.refl _
  | overWindow _ ih => exact ih rfl
  | core _ _ _ _ _ into _ _ _ _ _ _ _ _ targets sources filter _ having qualify _ =>
    refine .node (.both ?_ (.both ?_ (.both ?_ (.both ?_ ?_)))) _
    · exact ((((((sources rfl).right _).left _).left _).left _).left _).left _
    · exact (((((((((targets rfl).right _).left _).left _).left _).left _).left _).left _).left _)
    · exact (((((filter rfl).right _).left _).left _).left _).left _
    · exact (((having rfl).right _).left _).left _
    · exact ((qualify rfl).right _).left _
  | combine _ _ _ _ _ left right | binary _ _ _ _ left right | within _ _ _ _ left right
  | when _ _ _ left right | sourceItem _ _ _ left right => exact ((left rfl).append (right rfl)).node _
  | window _ _ _ _ _ left right => exact (((left rfl).append (right rfl)).left _).node _
  | qualifiedJoin _ _ _ _ _ _ ih => exact ((ih rfl).left _).node _
  | between _ _ _ _ _ _ first second third | like _ _ _ _ _ _ first second third
  | choice _ _ _ _ first second third => exact (((first rfl).append (second rfl)).append (third rfl)).node _
  | scalar _ q _ _ _ subscripts => exact ((Met.query q).append (subscripts rfl)).node _
  | call _ _ _ _ _ _ _ _ _ _ _ args orderBy withinGroup filter windowed =>
    exact (((((args rfl).append (orderBy rfl)).append (withinGroup rfl)).append (filter rfl)).append
      (windowed rfl)).node _
  | nested _ q | subquery _ q | inQuery _ q | quantifiedQuery _ _ q | nonempty _ q => exact (Met.query q).node _
  | labelled _ _ _ ih | sort _ _ ih | sortItem _ _ _ _ ih | windowDef _ _ _ ih | sources _ _ ih | parens _ _ _ ih
  | crossJoin _ _ ih | joinOn _ _ ih | unary _ _ _ ih | inValues _ _ ih | quantifiedExpr _ _ _ ih
  | collate _ _ _ ih | cast _ _ _ ih | column _ _ _ _ ih | row _ _ ih | special _ _ _ ih => exact (ih rfl).node _

theorem outline_many {c : Category} : (xs : Phrase (.many c)) → xs.outline = xs.toList.flatMap outline
  | .nil => rfl
  | .cons x xs => congrArg (x.outline ++ ·) xs.outline_many

theorem mentioned_tables : (w : Phrase (.maybe .withs)) → w.tables.flatMap mentioned ⊆ w.mentioned
  | .none => nil_subset _
  | .some (.withs s r ts) => by
    have all : ts.toList.flatMap mentioned = tableNames ts.outline := by
      rw [ts.outline_many]
      induction ts.toList with
      | nil => rfl
      | cons t ts ih => rw [flatMap_cons, flatMap_cons, Outline.tableNames_append, ih, mentioned]
    rw [tables, all]
    exact Outline.tableNames_subset_node _ _

/-- A query mentions what its clause and its body mention. -/
theorem mentioned_query {s w b o l f} (member : n ∈ w.mentioned ∨ n ∈ b.mentioned) :
    n ∈ (query s w b o l f).mentioned := by
  apply Outline.tableNames_subset_node
  obtain clause | body := member
  · simp only [Outline.tableNames_append, append_assoc]
    exact mem_append_left _ clause
  · simp only [Outline.tableNames_append, append_assoc]
    exact mem_append_right _ (mem_append_left _ body)

end Phrase

theorem Leaf.mentioned_of_mem_body {b : Phrase .body} {leaf : Leaf} (member : leaf ∈ b.leaves)
    (inside : n ∈ leaf.mentioned) : n ∈ b.mentioned :=
  Phrase.leaves_met rfl (mem_flatMap_of_mem member inside)

/-- What a table of a clause mentions, the clause does. -/
theorem mem_flatMap_mentioned {before after : List (Phrase .cte)} {s c cs q}
    (member : n ∈ before.flatMap Phrase.mentioned ∨ n ∈ q.mentioned) :
    n ∈ (before ++ .cte s c cs q :: after).flatMap Phrase.mentioned := by
  rw [flatMap_append, flatMap_cons]
  obtain earlier | here := member
  · exact mem_append_left _ earlier
  · exact mem_append_right _ (mem_append_left _ (Outline.tableNames_subset_node _ _ here))

/-! ### What is read is mentioned -/

mutual

theorem Leaf.Reads.mentioned {leaf : Leaf} {n : String} : leaf.Reads n → n ∈ leaf.mentioned
  | .table n => mem_singleton_self n
  | .query member read behind => by
    have inside := read.mentioned
    obtain rfl | clause := behind.mentioned
    · exact Phrase.mentioned_query (.inr (Leaf.mentioned_of_mem_body member inside))
    · exact Phrase.mentioned_query (.inl (Phrase.mentioned_tables _ clause))

theorem Outlet.Feeds.mentioned {outlet : Outlet} {k n : String} :
    outlet.Feeds k n → n ∈ outlet.leaves.flatMap Leaf.mentioned
  | .into member read => mem_flatMap_of_mem member read.mentioned
  | .query member fed behind => by
    apply mem_flatMap_of_mem (mem_singleton_self _)
    obtain ⟨leaf, among, inside⟩ := mem_flatMap.1 fed.mentioned
    obtain rfl | clause := behind.mentioned
    · exact Phrase.mentioned_query (.inr (Leaf.mentioned_of_mem_body
        (Phrase.leaves_subset_of_mem_outlets member among) inside))
    · exact Phrase.mentioned_query (.inl (Phrase.mentioned_tables _ clause))

theorem Supplies.mentioned {ts : List (Phrase .cte)} {k n : String} :
    Supplies ts k n → n ∈ ts.flatMap Phrase.mentioned
  | .name split read behind => by
    have inside := read.mentioned
    rw [split]
    obtain rfl | earlier := behind.mentioned
    · exact mem_flatMap_mentioned (.inr inside)
    · exact mem_flatMap_mentioned (.inl earlier)
  | .into split fed behind => by
    obtain ⟨leaf, among, inside⟩ := mem_flatMap.1 fed.mentioned
    rw [split]
    obtain rfl | earlier := behind.mentioned
    · rw [mem_singleton.1 among] at inside
      exact mem_flatMap_mentioned (.inr inside)
    · exact mem_flatMap_mentioned (.inl earlier)

theorem StandsFor.mentioned {ts : List (Phrase .cte)} {m n : String} :
    StandsFor ts m n → n = m ∨ n ∈ ts.flatMap Phrase.mentioned
  | .base _ => .inl rfl
  | .bound supplied => .inr supplied.mentioned

end

end TableLineage
