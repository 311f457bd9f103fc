import TableLineage.Proofs.Lineage.TablesRead

/-! Sinks against sources. Whatever feeds a table that a query writes is read by the query.
Statements hand this on, but for an insert: its `WITH` clause stands before what its query
reads and not before what its query writes. -/
namespace TableLineage

open List

/-- The leaves that an outlet draws on. -/
def Outlet.leaves : Outlet → List Leaf
  | into _ leaves => leaves
  | query q => [.query q]

theorem Phrase.leaves_subset_of_mem_outlets {c : Category} {p : Phrase c} {outlet : Outlet}
    (member : outlet ∈ p.outlets) : outlet.leaves ⊆ p.leaves := by
  induction p with
  | core _ _ _ _ _ into =>
    cases into with
    | none => cases member
    | some i =>
      rw [mem_singleton.1 member]
      exact List.Subset.refl _
  | combine _ _ _ _ _ left right =>
    obtain first | second := mem_append.1 member
    · exact List.Subset.trans (left first) (subset_append_left _ _)
    · exact List.Subset.trans (right second) (subset_append_right _ _)
  | query | nested =>
    rw [mem_singleton.1 member]
    exact List.Subset.refl _
  | _ => cases member

theorem Outlet.Feeds.exists_reads {outlet : Outlet} {k n : String} :
    outlet.Feeds k n → ∃ leaf ∈ outlet.leaves, leaf.Reads n
  | .into member read => ⟨_, member, read⟩
  | .query member fed behind => by
    obtain ⟨leaf, inside, read⟩ := fed.exists_reads
    exact ⟨_, mem_singleton_self _, .query (Phrase.leaves_subset_of_mem_outlets member inside) read behind⟩

variable {k n : String} {q : Query}

/-- What feeds a table written inside a query is read by the query. -/
theorem reads_of_feeds_query (fed : (Outlet.query q).Feeds k n) : (Leaf.query q).Reads n := by
  obtain ⟨leaf, member, read⟩ := fed.exists_reads
  rwa [mem_singleton.1 member] at read

namespace Scope

/-- A scope has a table behind a name that it binds. -/
def Has (ρ : Scope) (k n : String) : Prop := ∃ tables, ρ k = some tables ∧ n ∈ tables

theorem has_join {ρ σ : Scope} : (ρ.join σ).Has k n ↔ ρ.Has k n ∨ σ.Has k n := by
  unfold Has join
  cases ρ k <;> cases σ k <;> simp

theorem has_only {name : String} {tables : Set String} : (only name tables).Has k n ↔ k = name ∧ n ∈ tables := by
  by_cases same : k = name <;> simp [Has, only, same]

theorem not_has_nothing : ¬ nothing.Has k n := by
  simp [Has, nothing]

theorem has_fedBy {outlets : List Outlet} : (fedBy outlets).Has k n ↔ ∃ outlet ∈ outlets, outlet.Feeds k n := by
  constructor
  · rintro ⟨tables, bound, member⟩
    simp only [fedBy, listed, Option.ite_none_right_eq_some, Option.some.injEq] at bound
    rw [← bound.2] at member
    exact member
  · intro fed
    exact ⟨_, if_pos (mem_names_of_feeds fed), fed⟩

theorem has_toScope {sinks : KeyMap Names} : sinks.toScope.Has k n ↔ ∃ ns, sinks.get? k = some ns ∧ ns.contains n := by
  unfold Has KeyMap.toScope
  cases sinks.get? k <;> simp [Names.mem_toSet]

end Scope

namespace Statement

variable {s : Statement}

/-- A statement feeds a table that it writes: its own table from all it reads, and those
written inside its query. -/
theorem has_feeds : s.feeds.Has k n ↔
    (s.target? = some k ∧ s.Reads n) ∨ ∃ q, s.query? = some q ∧ (Outlet.query q).Feeds k n := by
  rw [feeds, Scope.has_join, Scope.has_fedBy]
  cases s.target? <;> cases s.query? <;> simp [Scope.has_only, Scope.not_has_nothing, eq_comm]

/-- What feeds a table written inside the query is read, if the clause of the statement does
not bind its name. -/
theorem reads_of_unbound (asked : s.query? = some q) (fed : (Outlet.query q).Feeds k n) (unbound : n ∉ boundBy s.clause) :
    s.Reads n := by
  have leaf : .query q ∈ s.leaves := by
    cases s <;> cases asked <;> exact mem_singleton_self _
  exact ⟨_, leaf, n, reads_of_feeds_query fed, .base unbound⟩

/-- A table written inside the query of an insert is fed by a name that the clause of the insert
binds, and the insert does not come to read a base table of that name. -/
def Leaks : Statement → Prop
  | .insert s w t q cs => ∃ k n, (Outlet.query q).Feeds k n ∧ n ∈ boundBy w.tables ∧
      ¬ Statement.Reads (.insert s w t q cs) n
  | _ => False

theorem leaks_of_unread (asked : s.query? = some q) (fed : (Outlet.query q).Feeds k n) (unread : ¬ s.Reads n) :
    s.Leaks := by
  have bound : n ∈ boundBy s.clause := by
    by_contra unbound
    exact unread (reads_of_unbound asked fed unbound)
  cases s with
  | insert =>
    cases asked
    exact ⟨k, n, fed, bound, unread⟩
  | delete => cases asked
  | _ => cases bound

theorem feeds_explained_iff : (∀ k n, s.feeds.Has k n → s.Reads n) ↔ ¬ s.Leaks := by
  constructor
  · intro explained leaks
    cases s with
    | insert =>
      obtain ⟨k, n, fed, _, unread⟩ := leaks
      exact unread (explained k n (has_feeds.2 (.inr ⟨_, rfl, fed⟩)))
    | _ => cases leaks
  · intro tight k n fed
    obtain ⟨_, read⟩ | ⟨q, asked, fed⟩ := has_feeds.1 fed
    · exact read
    · by_contra unread
      exact tight (leaks_of_unread asked fed unread)

end Statement

/-- Every sink of a statement is explained by its sources, unless it leaks a name of the `WITH`
clause of an insert. -/
theorem sinks_explained_iff (s : Statement) :
    (∀ k ns, s.record.sinks.get? k = some ns → ∀ n, ns.contains n → s.record.sources.contains n) ↔ ¬ s.Leaks := by
  have sinks : s.record.sinks.toScope = s.feeds := congrArg Meaning.writes s.meaning_record
  have sources : s.record.sources.toSet = {n | s.Reads n} := congrArg Meaning.reads s.meaning_record
  rw [← Statement.feeds_explained_iff, ← sinks]
  constructor
  · intro explained k n fed
    obtain ⟨ns, found, member⟩ := Scope.has_toScope.1 fed
    have read := Names.mem_toSet.2 (explained k ns found n member)
    rwa [sources] at read
  · intro explained k ns found n member
    have read : n ∈ {n | s.Reads n} := explained k n (Scope.has_toScope.2 ⟨ns, found, member⟩)
    rwa [← sources] at read

/-- The table `k` is fed by the name `c` of the clause, which is no source of the insert. -/
theorem nested_into_leaks :
    ∃ s ∈ Statement.ofText? "WITH c AS (SELECT * FROM a) INSERT INTO t SELECT * INTO k FROM c",
      ∃ ns ∈ s.record.sinks.get? "k", ns.contains "c" ∧ ¬ s.record.sources.contains "c" := by
  decide +kernel

end TableLineage
