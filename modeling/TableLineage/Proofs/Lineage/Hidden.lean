import Mathlib.Data.List.Induction
import TableLineage.Proofs.Lineage.Mentions

/-! Names of `WITH` clauses in records. A name that is mentioned only where it is in scope
is replaced by what stands behind it, but for two gaps: a table that reads itself, which
is not in the scope of its own query, and tables written inside the query of an insert. -/
namespace TableLineage

open List

/-- A name comes to the table `c` of a clause, whose query is `q`, past the tables declared after
it: it is `c`, the query writes it from `c`, or one of the later tables does. -/
inductive DrawsOn (c : String) (q : Query) : List (Phrase .cte) → String → Prop
  | own {later : List (Phrase .cte)} : DrawsOn c q later c
  | written {later : List (Phrase .cte)} {k : String} (fed : (Outlet.query q).Feeds k c) : DrawsOn c q later k
  | name {later front back s k cs r} {m : String} (split : later = front ++ Phrase.cte s k cs r :: back)
      (read : (Leaf.query r).Reads m) (draws : DrawsOn c q front m) : DrawsOn c q later k
  | into {later front back s n cs r} {k m : String} (split : later = front ++ Phrase.cte s n cs r :: back)
      (fed : (Outlet.query r).Feeds k m) (draws : DrawsOn c q front m) : DrawsOn c q later k

section

variable {c m : String} {q : Query}

theorem drawsOn_nil : DrawsOn c q [] m ↔ m = c ∨ (Outlet.query q).Feeds m c := by
  constructor
  · intro draws
    cases draws with
    | own => exact .inl rfl
    | written fed => exact .inr fed
    | name split | into split => simp at split
  · rintro (rfl | fed)
    · exact .own
    · exact .written fed

theorem drawsOn_append_single {front : List (Phrase .cte)} {s n cs r} {k : String} :
    DrawsOn c q (front ++ [.cte s n cs r]) k ↔
      DrawsOn c q front k ∨ (k = n ∧ ∃ m, (Leaf.query r).Reads m ∧ DrawsOn c q front m) ∨
        ∃ m, (Outlet.query r).Feeds k m ∧ DrawsOn c q front m := by
  constructor
  · intro draws
    cases draws with
    | own => exact .inl .own
    | written fed => exact .inl (.written fed)
    | name split read draws =>
      obtain ⟨rfl, same⟩ | ⟨rest, earlier⟩ := append_single_eq_append_cons split
      · cases same
        exact .inr (.inl ⟨rfl, _, read, draws⟩)
      · exact .inl (.name earlier read draws)
    | into split fed draws =>
      obtain ⟨rfl, same⟩ | ⟨rest, earlier⟩ := append_single_eq_append_cons split
      · cases same
        exact .inr (.inr ⟨_, fed, draws⟩)
      · exact .inl (.into earlier fed draws)
  · rintro (draws | ⟨rfl, m, read, draws⟩ | ⟨m, fed, draws⟩)
    · cases draws with
      | own => exact .own
      | written fed => exact .written fed
      | name split read draws => exact .name (by rw [split, append_assoc, cons_append]) read draws
      | into split fed draws => exact .into (by rw [split, append_assoc, cons_append]) fed draws
    · exact .name rfl read draws
    · exact .into rfl fed draws

variable {before : List (Phrase .cte)} (earlier : ∀ t ∈ before, c ∉ t.mentioned)

include earlier

theorem not_supplies_unmentioned (k : String) : ¬ Supplies before k c := by
  intro supplied
  obtain ⟨t, member, inside⟩ := mem_flatMap.1 supplied.mentioned
  exact earlier t member inside

/-- Tables that do not mention a name leave it as it is, or bind it. -/
theorem standsFor_unmentioned : StandsFor before m c ↔ m = c ∧ c ∉ boundBy before := by
  rw [standsFor_iff]
  constructor
  · rintro (⟨rfl, unbound⟩ | supplied)
    · exact ⟨rfl, unbound⟩
    · exact absurd supplied (not_supplies_unmentioned earlier m)
  · rintro ⟨rfl, unbound⟩
    exact .inl ⟨rfl, unbound⟩

/-- A name of a clause stands behind a name just if its own query reads it, with no earlier
table of that name, and the other name draws on it. -/
theorem standsFor_own_iff {after : List (Phrase .cte)} {s cs} :
    StandsFor (before ++ .cte s c cs q :: after) m c ↔
      ((Leaf.query q).Reads c ∧ c ∉ boundBy before) ∧ DrawsOn c q after m := by
  have bound (after : List (Phrase .cte)) : c ∈ boundBy (before ++ .cte s c cs q :: after) := by
    simp [boundBy, Phrase.binds]
  have supplied (after : List (Phrase .cte)) (m : String) : StandsFor (before ++ .cte s c cs q :: after) m c ↔
      Supplies (before ++ .cte s c cs q :: after) m c := by
    rw [standsFor_iff, or_iff_right]
    rintro ⟨rfl, unbound⟩
    exact unbound (bound after)
  -- Tables are taken from the end, where a clause grows.
  induction after using List.reverseRecOn generalizing m with
  | nil =>
    rw [supplied, supplies_append_single, drawsOn_nil]
    simp only [standsFor_unmentioned earlier, not_supplies_unmentioned earlier, false_or]
    constructor
    · rintro (⟨rfl, _, read, rfl, unbound⟩ | ⟨_, fed, rfl, unbound⟩)
      · exact ⟨⟨read, unbound⟩, .inl rfl⟩
      · exact ⟨⟨reads_of_feeds_query fed, unbound⟩, .inr fed⟩
    · rintro ⟨⟨read, unbound⟩, rfl | fed⟩
      · exact .inl ⟨rfl, m, read, rfl, unbound⟩
      · exact .inr ⟨c, fed, rfl, unbound⟩
  | append_singleton after last ih =>
    cases last with
    | cte s' n cs' r =>
      rw [supplied, ← cons_append, ← append_assoc, supplies_append_single, drawsOn_append_single, ← supplied]
      simp only [ih]
      constructor
      · rintro (⟨own, draws⟩ | ⟨rfl, m, read, own, draws⟩ | ⟨m, fed, own, draws⟩)
        · exact ⟨own, .inl draws⟩
        · exact ⟨own, .inr (.inl ⟨rfl, m, read, draws⟩)⟩
        · exact ⟨own, .inr (.inr ⟨m, fed, draws⟩)⟩
      · rintro ⟨own, draws | ⟨rfl, m, read, draws⟩ | ⟨m, fed, draws⟩⟩
        · exact .inl ⟨own, draws⟩
        · exact .inr (.inl ⟨rfl, m, read, own, draws⟩)
        · exact .inr (.inr ⟨m, fed, own, draws⟩)

end

namespace Statement

/-- The `WITH` clause that a statement starts with. -/
def withs : Statement → Phrase (.maybe .withs)
  | .select (.query _ w _ _ _ _) | .insert _ w _ _ _ | .delete _ w _ _ _ => w
  | _ => .none

/-- The leaves of a statement past that clause. -/
def main : Statement → List Leaf
  | .select (.query _ _ b _ _ _) => b.leaves
  | s => s.leaves

variable {s : Statement} {n : String}

theorem reads_iff_main : s.Reads n ↔ ∃ leaf ∈ s.main, ∃ m, leaf.Reads m ∧ StandsFor s.withs.tables m n := by
  have outermost {m : String} : StandsFor [] m n ↔ m = n := by
    simp [standsFor_unmentioned, boundBy]
  cases s with
  | select q =>
    cases q with
    | query _ w b =>
      change (∃ leaf ∈ [Leaf.query _], ∃ m, leaf.Reads m ∧ StandsFor [] m n) ↔ _
      simp only [mem_singleton, exists_eq_left, outermost, exists_eq_right, Leaf.reads_query]
      constructor
      · rintro ⟨m, ⟨leaf, member, read⟩, behind⟩
        exact ⟨leaf, member, m, read, behind⟩
      · rintro ⟨leaf, member, m, read, behind⟩
        exact ⟨m, ⟨leaf, member, read⟩, behind⟩
  | _ => exact Iff.rfl

/-- A name is in the record of a statement, as a source or behind a sink. -/
def Shows (s : Statement) (n : String) : Prop :=
  s.record.sources.contains n ∨ ∃ k ns, s.record.sinks.get? k = some ns ∧ ns.contains n

theorem shows_iff : s.Shows n ↔ s.Reads n ∨ ∃ k, s.feeds.Has k n := by
  have sinks : s.record.sinks.toScope = s.feeds := congrArg Meaning.writes s.meaning_record
  have sources : s.record.sources.toSet = {n | s.Reads n} := congrArg Meaning.reads s.meaning_record
  have source : s.record.sources.contains n ↔ s.Reads n := by
    rw [← Names.mem_toSet, sources]
    rfl
  simp only [Shows, source, ← sinks, Scope.has_toScope]

/-- A table written inside the query of an insert is fed by the name. -/
def InsertFeeds : Statement → String → Prop
  | .insert _ _ _ q _, n => ∃ k, (Outlet.query q).Feeds k n
  | _, _ => False

/-- The clause of a statement has the table `c` with the query `q`, between other tables. -/
def Declares (s : Statement) (recursive : Bool) (before : List (Phrase .cte)) (c : String) (q : Query)
    (after : List (Phrase .cte)) : Prop :=
  ∃ span ts place columns, s.withs = .some (.withs span recursive ts) ∧
    ts.toList = before ++ .cte place c columns q :: after

/-- Behind a sink of a statement with a clause there is what it reads, or its insert feeds it. -/
theorem reads_or_insertFeeds {k : String} {clause : Phrase .withs} (behind : s.feeds.Has k n)
    (some : s.withs = .some clause) : s.Reads n ∨ s.InsertFeeds n := by
  obtain ⟨_, read⟩ | ⟨q, asked, fed⟩ := has_feeds.1 behind
  · exact .inl read
  · cases s with
    | select =>
      cases asked
      exact .inl (reads_of_unbound rfl fed (by simp [Statement.clause, boundBy]))
    | insert =>
      cases asked
      exact .inr ⟨k, fed⟩
    | delete => cases asked
    | _ => cases some

theorem feeds_of_insertFeeds (fed : s.InsertFeeds n) : ∃ k, s.feeds.Has k n := by
  cases s with
  | insert =>
    obtain ⟨k, fed⟩ := fed
    exact ⟨k, has_feeds.2 (.inr ⟨_, rfl, fed⟩)⟩
  | _ => cases fed

end Statement

/-- A name of the clause of a statement that is mentioned only in its scope shows in the record
just if the statement comes to it and its query reads it, which takes a recursive clause, or if
it feeds a table that the query of an insert writes. -/
theorem clause_name_shows_iff {s : Statement} {recursive : Bool} {before after : List (Phrase .cte)} {c : String}
    {q : Query} (declared : s.Declares recursive before c q after) (earlier : ∀ t ∈ before, c ∉ t.mentioned)
    (own : recursive = false → c ∉ q.mentioned) :
    s.Shows c ↔ (recursive = true ∧ (Leaf.query q).Reads c ∧ c ∉ boundBy before ∧
        ∃ leaf ∈ s.main, ∃ m, leaf.Reads m ∧ DrawsOn c q after m) ∨ s.InsertFeeds c := by
  obtain ⟨span, ts, place, columns, clause, split⟩ := declared
  have reads : s.Reads c ↔ recursive = true ∧ (Leaf.query q).Reads c ∧ c ∉ boundBy before ∧
      ∃ leaf ∈ s.main, ∃ m, leaf.Reads m ∧ DrawsOn c q after m := by
    rw [Statement.reads_iff_main, clause, Phrase.tables, split]
    simp only [standsFor_own_iff earlier]
    constructor
    · rintro ⟨leaf, member, m, read, ⟨itself, unbound⟩, draws⟩
      refine ⟨?_, itself, unbound, leaf, member, m, read, draws⟩
      by_contra plain
      exact own (by simpa using plain) itself.mentioned
    · rintro ⟨_, itself, unbound, leaf, member, m, read, draws⟩
      exact ⟨leaf, member, m, read, ⟨itself, unbound⟩, draws⟩
  rw [Statement.shows_iff, ← reads]
  constructor
  · rintro (read | ⟨k, fed⟩)
    · exact .inl read
    · exact Statement.reads_or_insertFeeds fed clause
  · rintro (read | fed)
    · exact .inl read
    · exact .inr (Statement.feeds_of_insertFeeds fed)

/-- A recursive table that reads itself shows in a statement that reads it through a later one. -/
theorem shows_recursive_table : ∃ (s : Statement) (q later : Query),
    s.Declares true [] "c" q [.cte .none "d" [] later] ∧ s.Shows "c" := by
  let rows (name : String) : Phrase .body :=
    .core .none false .nil .none (.cons (.star .none []) .nil) none
      (.some (.sources .none (.cons (.sourceItem .none (.table ⟨.none, name, ""⟩) .nil) .nil))) .none .nil .none .none
      .nil
  let whole (body : Phrase .body) : Query := .query .none .none body .none .none .none
  let own := whole (.combine .none .union none (rows "a") (rows "c"))
  let tables : Phrase (.many .cte) := .cons (.cte .none "c" [] own) (.cons (.cte .none "d" [] (whole (rows "c"))) .nil)
  let s : Statement := .select (.query .none (.some (.withs .none true tables)) (rows "d") .none .none .none)
  have declared : s.Declares true [] "c" own [.cte .none "d" [] (whole (rows "c"))] :=
    ⟨.none, tables, .none, [], rfl, rfl⟩
  have reads {body : Phrase .body} (member : .table "c" ∈ body.leaves) : (Leaf.query (whole body)).Reads "c" :=
    .query member (.table "c") (.base (by decide))
  have itself : (Leaf.query own).Reads "c" := reads (List.mem_cons_of_mem _ (List.mem_singleton_self _))
  have draws : DrawsOn "c" own [.cte .none "d" [] (whole (rows "c"))] "d" :=
    .name (List.nil_append _).symm (reads (List.mem_singleton_self _)) .own
  refine ⟨s, own, whole (rows "c"), declared, ?_⟩
  exact (clause_name_shows_iff declared (by simp) (by simp)).2
    (.inl ⟨rfl, itself, List.not_mem_nil, .table "d", List.mem_singleton_self _, "d", .table "d", draws⟩)

/-- A name of a clause may be a source although it is mentioned in its scope only, and it may
stand behind a sink. -/
theorem recursive_table_is_source :
    (∃ s ∈ Statement.ofText? "WITH RECURSIVE c AS (SELECT * FROM a UNION ALL SELECT * FROM c) SELECT * FROM c",
      s.record.sources.contains "c") ∧
    ∃ s ∈ Statement.ofText? "WITH c AS (SELECT * FROM a) INSERT INTO t (x) SELECT * INTO k FROM c",
      ∃ ns ∈ s.record.sinks.get? "k", ns.contains "c" := by
  decide +kernel

end TableLineage
