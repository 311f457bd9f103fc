import TableLineage.Proofs.Lineage.Reads

/-! The rules for reading tables, as sets and scopes: one equation for each kind of leaf and
outlet, and one for the tables of a `WITH` clause, taken one at a time. -/
namespace TableLineage

open List

/-- The base tables that some of the leaves read. -/
def readBy (leaves : List Leaf) : Set String := {n | ∃ leaf ∈ leaves, leaf.Reads n}

@[simp] theorem readBy_nil : readBy [] = ∅ := by
  ext n
  simp [readBy]

@[simp] theorem readBy_append (front back : List Leaf) : readBy (front ++ back) = readBy front ∪ readBy back := by
  ext n
  simp only [readBy, mem_append, or_and_right, exists_or]
  rfl

@[simp] theorem readBy_table (name : String) : readBy [.table name] = {name} := by
  ext n
  simp [readBy, Leaf.reads_table]

namespace Scope

/-- The scope of some names, each with the tables that a relation puts behind it. -/
def listed (names : List String) (feeds : String → String → Prop) : Scope := fun k =>
  if k ∈ names then some {n | feeds k n} else none

theorem listed_nil (feeds : String → String → Prop) : listed [] feeds = nothing := by
  funext k
  simp [listed, nothing]

/-- Behind a name that is not listed there must be no tables, or the union would show them. -/
theorem listed_join {a b : List String} {f g : String → String → Prop}
    (ofLeft : ∀ k n, f k n → k ∈ a) (ofRight : ∀ k n, g k n → k ∈ b) :
    (listed a f).join (listed b g) = listed (a ++ b) fun k n => f k n ∨ g k n := by
  funext k
  by_cases left : k ∈ a <;> by_cases right : k ∈ b <;> simp only [join, listed, mem_append, left, right,
    if_true, if_false, or_true, true_or, or_self, Option.merge_some_some, Option.merge_none_right,
    Option.merge_none_left]
  · rfl
  · have none (n : String) : ¬ g k n := fun fed => right (ofRight k n fed)
    simp [none]
  · have none (n : String) : ¬ f k n := fun fed => left (ofLeft k n fed)
    simp [none]

theorem listed_congr {a b : List String} {f g : String → String → Prop} (names : a = b)
    (tables : ∀ k n, f k n ↔ g k n) : listed a f = listed b g := by
  have same : f = g := by
    funext k n
    exact propext (tables k n)
  rw [names, same]

theorem only_eq_listed (name : String) (tables : Set String) :
    only name tables = listed [name] fun k n => k = name ∧ n ∈ tables := by
  funext k
  by_cases same : k = name <;> simp [only, listed, same]

end Scope

/-- What outlets write. -/
def fedBy (outlets : List Outlet) : Scope :=
  .listed (outlets.flatMap Outlet.names) fun k n => ∃ outlet ∈ outlets, outlet.Feeds k n

theorem mem_names_of_feeds {outlets : List Outlet} {k n : String}
    (fed : ∃ outlet ∈ outlets, outlet.Feeds k n) : k ∈ outlets.flatMap Outlet.names := by
  obtain ⟨outlet, member, fed⟩ := fed
  exact mem_flatMap_of_mem member fed.mem_names

@[simp] theorem fedBy_nil : fedBy [] = .nothing := Scope.listed_nil _

@[simp] theorem fedBy_append (front back : List Outlet) :
    fedBy (front ++ back) = (fedBy front).join (fedBy back) := by
  rw [fedBy, fedBy, fedBy, Scope.listed_join (fun _ _ => mem_names_of_feeds) fun _ _ => mem_names_of_feeds]
  simp only [flatMap_append, mem_append, or_and_right, exists_or]

@[simp] theorem fedBy_into (name : String) (leaves : List Leaf) :
    fedBy [.into name leaves] = .only name (readBy leaves) := by
  funext k
  by_cases same : k = name <;> simp [fedBy, Scope.listed, Scope.only, Outlet.names, Outlet.feeds_into, same, readBy]

/-- What tables of a `WITH` clause bind. -/
def clauseScope (ts : List (Phrase .cte)) : Scope := .listed (boundBy ts) (Supplies ts)

@[simp] theorem clauseScope_nil : clauseScope [] = .nothing := Scope.listed_nil _

theorem image_clauseScope_nil (names : Set String) : (clauseScope []).image names = names := by
  rw [clauseScope_nil, Scope.image_nothing]

variable {ts : List (Phrase .cte)}

theorem mem_tables_clauseScope {m n : String} : n ∈ (clauseScope ts).tables m ↔ StandsFor ts m n := by
  rw [standsFor_iff]
  by_cases bound : m ∈ boundBy ts
  · simp [clauseScope, Scope.tables, Scope.listed, bound]
  · have none : ¬ Supplies ts m n := fun supplied => bound supplied.mem_boundBy
    simp [clauseScope, Scope.tables, Scope.listed, bound, none]

theorem mem_image_clauseScope {names : Set String} {n : String} :
    n ∈ (clauseScope ts).image names ↔ ∃ m ∈ names, StandsFor ts m n := by
  simp only [Scope.image, Set.mem_ofPred_eq, mem_tables_clauseScope]

theorem listed_within_clauseScope (names : List String) (feeds : String → String → Prop) :
    (Scope.listed names feeds).within (clauseScope ts) =
      .listed names fun k n => ∃ m, feeds k m ∧ StandsFor ts m n := by
  funext k
  have tables : (clauseScope ts).image {m | feeds k m} = {n | ∃ m, feeds k m ∧ StandsFor ts m n} := by
    ext n
    exact mem_image_clauseScope
  by_cases written : k ∈ names <;> simp [Scope.listed, Scope.within, written, tables]

theorem readBy_query (s w b o l f) :
    readBy [.query (.query s w b o l f)] = (clauseScope w.tables).image (readBy b.leaves) := by
  ext n
  simp [mem_image_clauseScope, readBy, Leaf.reads_query]

theorem fedBy_query (s w b o l f) :
    fedBy [.query (.query s w b o l f)] = (fedBy b.outlets).within (clauseScope w.tables) := by
  rw [fedBy, fedBy, listed_within_clauseScope]
  apply Scope.listed_congr
  · simp [Outlet.names, Phrase.written, b.written_eq_names]
  · simp [Outlet.feeds_query]

/-- The last table of a clause binds its name and what its query writes, both past the tables
before it. -/
theorem clauseScope_append_single (before : List (Phrase .cte)) (s c cs q) :
    clauseScope (before ++ [.cte s c cs q]) =
      ((clauseScope before).join (.only c ((clauseScope before).image (readBy [.query q])))).join
        ((fedBy [.query q]).within (clauseScope before)) := by
  have ofName (k n : String) (named : k = c ∧ n ∈ (clauseScope before).image (readBy [.query q])) : k ∈ [c] := by
    simp [named.1]
  have ofTables (k n : String) (bound : Supplies before k n ∨
      k = c ∧ n ∈ (clauseScope before).image (readBy [.query q])) : k ∈ boundBy before ++ [c] := by
    obtain supplied | named := bound
    · exact mem_append_left _ supplied.mem_boundBy
    · exact mem_append_right _ (ofName k n named)
  have ofQuery (k n : String) (written : ∃ m, (∃ outlet ∈ [Outlet.query q], outlet.Feeds k m) ∧
      StandsFor before m n) : k ∈ [Outlet.query q].flatMap Outlet.names := by
    obtain ⟨m, fed, _⟩ := written
    exact mem_names_of_feeds fed
  have tables := Scope.listed_join (fun k n (supplied : Supplies before k n) => supplied.mem_boundBy) ofName
  rw [Scope.only_eq_listed, fedBy, listed_within_clauseScope]
  refine .trans ?_ ((Scope.listed_join ofTables ofQuery).symm.trans (congrArg (Scope.join · _) tables.symm))
  apply Scope.listed_congr
  · simp [boundBy, Phrase.binds, Outlet.names]
  · intro k n
    rw [supplies_append_single, mem_image_clauseScope, or_assoc]
    simp [readBy]

end TableLineage
