import Mathlib.Data.List.Forall2
import TableLineage.Proofs.Lineage.Evaluation

/-! Replacing the tables of `WITH` clauses after the fact agrees with evaluating in
scopes. The induction carries an arbitrary scope around the phrase: a clause that is
replaced inside and then outside is replaced in the composed scope. -/
namespace TableLineage

open List

/-- The record or set of a phrase, read in any scope, is the value of the phrase there. -/
def Agrees : (c : Category) → Trace c → Value c → Prop
  | .statement, r, m => r.meaning = m
  | .query, r, v | .body, r, v => ∀ ρ, r.meaning.under ρ = v ρ
  | .withs, r, v => ∀ ρ, r.sinks.toScope.within ρ = v ρ
  | .cte, add, v => ∀ ρ r, (add r).sinks.toScope.within ρ = v ρ (r.sinks.toScope.within ρ)
  -- Sources read but never write.
  | .sources, r, v | .sourceItem, r, v | .source, r, v | .join, r, v => ∀ ρ, r.meaning.under ρ = ⟨v ρ, .nothing⟩
  | .many c, ts, vs => List.Forall₂ (Agrees c) ts vs
  | .maybe c, t, v => Option.Rel (Agrees c) t v
  | .target, ns, v | .sort, ns, v | .sortItem, ns, v | .windowDef, ns, v | .window, ns, v | .overClause, ns, v
  | .condition, ns, v | .expr, ns, v | .inSource, ns, v | .when, ns, v => ∀ ρ, ρ.image ns.toSet = v ρ

variable {ρ : Scope} {row : List (Scope → Set String)} {clause : Option (Scope → Scope)} {withs : Option Record}
  {read : Set String} {r : Record}

theorem across_cons (v : Scope → Set String) (row : List (Scope → Set String)) :
    across (v :: row) ρ = v ρ ∪ across row ρ := by
  ext t
  simp [across]

theorem image_union {a b : Names} {v w : Scope → Set String} (left : ∀ ρ : Scope, ρ.image a.toSet = v ρ)
    (right : ∀ ρ : Scope, ρ.image b.toSet = w ρ) (ρ : Scope) : ρ.image (a.union b).toSet = v ρ ∪ w ρ := by
  rw [Names.toSet_union, Scope.image_union, left, right]

theorem image_unions {sets : List Names}
    (agree : List.Forall₂ (fun ns v => ∀ ρ : Scope, ρ.image ns.toSet = v ρ) sets row) (ρ : Scope) :
    ρ.image (Names.unions sets).toSet = across row ρ := by
  induction agree with
  | nil => simp [Names.unions, across]
  | cons same _ ih => rw [Names.toSet_unions_cons, Scope.image_union, same, ih, across_cons]

/-- Sources count with the tables that they read. -/
theorem forall₂_sources {records : List Record}
    (agree : List.Forall₂ (fun r v => ∀ ρ : Scope, r.meaning.under ρ = ⟨v ρ, .nothing⟩) records row) :
    List.Forall₂ (fun ns v => ∀ ρ : Scope, ρ.image ns.toSet = v ρ) (records.map Record.sources) row := by
  rw [forall₂_map_left_iff]
  exact agree.imp fun r v same ρ => congrArg Meaning.reads (same ρ)

theorem image_namesOf {names : Option Names} {part : Option (Scope → Set String)}
    (agree : Option.Rel (fun ns v => ∀ ρ : Scope, ρ.image ns.toSet = v ρ) names part) (ρ : Scope) :
    ρ.image (namesOf names).toSet = ifThere part ρ := by
  cases agree with
  | none => simp [namesOf, ifThere]
  | some same => exact same ρ

theorem under_foldl_merge {records : List Record}
    (agree : List.Forall₂ (fun r v => ∀ ρ : Scope, r.meaning.under ρ = ⟨v ρ, .nothing⟩) records row)
    (start : r.meaning.under ρ = ⟨read, .nothing⟩) :
    (records.foldl Record.merge r).meaning.under ρ = ⟨read ∪ across row ρ, .nothing⟩ := by
  induction agree generalizing r read with
  | nil => simpa [across] using start
  | @cons next v _ _ same _ ih =>
    have step : (r.merge next).meaning.under ρ = ⟨read ∪ v ρ, .nothing⟩ := by
      rw [Record.meaning_merge, Meaning.join_under, start, same]
      simp [Meaning.join]
    rw [foldl_cons, ih step, across_cons, Set.union_assoc]

/-- Tables of a clause are bound in turn, each in the scope of those before it. -/
theorem within_foldl_add {adds : List (Record → Record)} {row : List (Scope → Scope → Scope)}
    (agree : List.Forall₂ (fun add v => ∀ (ρ : Scope) (r : Record),
      (add r).sinks.toScope.within ρ = v ρ (r.sinks.toScope.within ρ)) adds row) (r : Record) :
    (adds.foldl (fun tables add => add tables) r).sinks.toScope.within ρ =
      row.foldl (fun bound add => add ρ bound) (r.sinks.toScope.within ρ) := by
  induction agree generalizing r with
  | nil => rfl
  | cons same _ ih => rw [foldl_cons, foldl_cons, ih, same]

theorem declared_within_eq_bindings
    (agree : Option.Rel (fun r v => ∀ ρ : Scope, r.sinks.toScope.within ρ = v ρ) withs clause) (ρ : Scope) :
    (declared withs).toScope.within ρ = bindings clause ρ := by
  cases agree with
  | none => simp [declared, bindings, Record.empty]
  | some same => exact same ρ

/-- A record replaced in a clause and then read in `ρ` is read in the bindings of the clause over `ρ`. -/
theorem under_resolve_declared
    (agree : Option.Rel (fun r v => ∀ ρ : Scope, r.sinks.toScope.within ρ = v ρ) withs clause) (r : Record) (ρ : Scope) :
    (r.resolve (declared withs)).meaning.under ρ = r.meaning.under ((bindings clause ρ).atop ρ) := by
  rw [Record.meaning_resolve, Meaning.under_under, declared_within_eq_bindings agree]

/-- At the top of a statement nothing is around the clause. -/
theorem declared_eq_bindings (agree : Option.Rel (fun r v => ∀ ρ : Scope, r.sinks.toScope.within ρ = v ρ) withs clause) :
    (declared withs).toScope = bindings clause .nothing := by
  rw [← declared_within_eq_bindings agree, Scope.within_nothing]

theorem under_merge_reading {src : Option Record} {part : Option (Scope → Set String)}
    (agree : Option.Rel (fun r v => ∀ ρ : Scope, r.meaning.under ρ = ⟨v ρ, .nothing⟩) src part) {ns : Names}
    (same : ρ.image ns.toSet = read) :
    ((src.getD .empty).merge (.reading ns)).meaning.under ρ = ⟨ifThere part ρ ∪ read, .nothing⟩ := by
  have there : (src.getD .empty).meaning.under ρ = ⟨ifThere part ρ, .nothing⟩ := by
    cases agree with
    | none => simp [ifThere, Meaning.under]
    | some same => exact same ρ
  rw [Record.meaning_merge, Meaning.join_under, there]
  simp [Meaning.join, Meaning.under, same]

/-- All that a block reads feeds the table that its rows go into. -/
theorem under_merge_into (reads : r.meaning.under ρ = ⟨read, .nothing⟩) (name : String) :
    (r.merge ⟨.single name r.sources, .empty, none⟩).meaning.under ρ = ⟨read, .only name read⟩ := by
  have same : ρ.image r.sources.toSet = read := congrArg Meaning.reads reads
  rw [Record.meaning_merge, Meaning.join_under, reads]
  simp [Record.meaning, Meaning.under, Meaning.join, same]

theorem image_sources {v : Scope → Meaning} (agree : Agrees .query r v) (ρ : Scope) :
    ρ.image r.sources.toSet = (v ρ).reads :=
  congrArg Meaning.reads (agree ρ)

namespace Phrase

theorem trace_agrees {c : Category} (p : Phrase c) : Agrees c (trace c p) (eval c p) := by
  induction p with
  | none => exact .none
  | some _ ih => exact .some ih
  | nil => exact .nil
  | cons _ _ first rest => exact .cons first rest
  | select q ih =>
    change (trace .query q).meaning = eval .query q .nothing
    rw [← ih, Meaning.under_nothing]
  | insert _ w t q _ withs query =>
    -- The written table is fed from inside the clause, the rest is taken from outside of it.
    have outside : (trace .query q).meaning = eval .query q .nothing := by
      rw [← query, Meaning.under_nothing]
    change (((Record.writing t.name (trace .query q).sources).resolve _).mergeOnlySinks (trace .query q)).meaning = _
    simp only [Record.meaning_mergeOnlySinks, Record.meaning_resolve, Record.meaning_writing,
      Meaning.under, Scope.only_within, declared_eq_bindings withs, image_sources query, outside]
    rfl
  | delete _ w t us f withs items filter =>
    have read := image_union (image_unions (forall₂_sources items)) (image_namesOf filter)
      (bindings (eval (.maybe .withs) w) .nothing)
    change ((Record.writing t.name (Names.union _ _)).resolve _).meaning = _
    simp only [Record.meaning_resolve, Record.meaning_writing, Meaning.under, Scope.only_within,
      declared_eq_bindings withs, read]
    rfl
  | createTableAs _ n _ _ _ _ q ih | createView _ n _ _ _ _ q ih =>
    have query : (trace .query q).meaning = eval .query q .nothing := by
      rw [← ih, Meaning.under_nothing]
    change (createdFrom n (trace .query q)).meaning = (eval .query q .nothing).made n
    rw [createdFrom, Record.meaning_mergeOnlySinks, Record.meaning_writing, ← query]
    rfl
  | createTable | drop => exact Record.meaning_empty
  | alterRename _ n m =>
    change (renamed n m).meaning = ⟨{n}, .only (schemaOf n ++ m) {n}⟩
    simp [renamed]
  | query _ w b _ _ _ withs body =>
    intro ρ
    exact (under_resolve_declared withs _ ρ).trans (body _)
  | withs _ _ _ tables =>
    intro ρ
    exact within_foldl_add tables .empty
  | cte _ n _ q ih =>
    intro ρ r
    have query : ((trace .query q).resolve r.sinks).meaning.under ρ =
        eval .query q ((r.sinks.toScope.within ρ).atop ρ) := by
      rw [Record.meaning_resolve, Meaning.under_under, ih]
    change ((r.merge (.writing n _)).merge ((trace .query q).resolve r.sinks)).sinks.toScope.within ρ =
      (Scope.join _ (.only n (eval .query q _).reads)).join (eval .query q _).writes
    simp only [Record.merge, Record.writing, Record.toScope_mergeSinks, KeyMap.toScope_single,
      Scope.join_within, Scope.only_within, ← query]
    rfl
  | core _ _ _ _ ts into src f _ h q _ _ _ labels sources filter _ having qualify _ =>
    intro ρ
    have others := image_union (image_unions labels) (image_union (image_namesOf filter) (image_union
      (image_namesOf having) (image_namesOf qualify))) ρ
    have read := under_merge_reading sources others
    cases into with
    | none => exact read
    | some i => exact under_merge_into read i.name
  | combine _ _ _ l r left right =>
    intro ρ
    change (Record.merge (trace .body l) (trace .body r)).meaning.under ρ = (eval .body l ρ).join (eval .body r ρ)
    rw [Record.meaning_merge, Meaning.join_under, left, right]
  | values =>
    intro ρ
    change Record.empty.meaning.under ρ = ⟨∅, .nothing⟩
    simp [Meaning.under]
  | nested _ _ ih => exact ih
  | star | joinUsing | overName | hole | constant =>
    intro ρ
    change ρ.image Names.empty.toSet = ∅
    simp
  | labelled _ _ _ ih | joinOn _ _ ih | sortItem _ _ _ _ ih | windowDef _ _ _ ih | overWindow _ ih
  | unary _ _ _ ih | quantifiedExpr _ _ _ ih | collate _ _ _ ih | cast _ _ _ ih => exact ih
  | sources _ _ items =>
    intro ρ
    have none : Record.empty.meaning.under ρ = ⟨∅, .nothing⟩ := by simp [Meaning.under]
    have all := under_foldl_merge items none
    rwa [Set.empty_union] at all
  | sourceItem _ _ _ source joins =>
    intro ρ
    exact under_foldl_merge joins (source ρ)
  | table t =>
    intro ρ
    change (Record.reading (.single t.name)).meaning.under ρ = ⟨ρ.tables t.name, .nothing⟩
    simp [Meaning.under]
  | subquery _ q _ ih =>
    intro ρ
    change (Record.reading (trace .query q).sources).meaning.under ρ = ⟨(eval .query q ρ).reads, .nothing⟩
    rw [Record.meaning_reading, Meaning.under, image_sources ih, Scope.nothing_within]
  | parens _ _ _ ih | crossJoin _ _ ih | qualifiedJoin _ _ _ _ _ _ ih => exact ih
  | inQuery _ _ ih | quantifiedQuery _ _ _ ih | nonempty _ _ ih => exact image_sources ih
  | sort _ _ items | inValues _ _ items | column _ _ _ _ items | row _ _ items | special _ _ _ items =>
    exact image_unions items
  | window _ _ _ _ _ partitionBy orderBy =>
    exact image_union (image_unions partitionBy) (image_namesOf orderBy)
  | binary _ _ _ _ left right | within _ _ _ _ left right | when _ _ _ left right => exact image_union left right
  | between _ _ _ _ _ _ target lower upper => exact image_union (image_union target lower) upper
  | like _ _ _ _ _ _ target pattern escape =>
    exact image_union (image_union target pattern) (image_namesOf escape)
  | scalar _ _ _ _ query subscripts =>
    exact image_union (image_sources query) (image_unions subscripts)
  | choice _ _ _ _ subject whens otherwise =>
    exact image_union (image_union (image_namesOf subject) (image_unions whens))
      (image_namesOf otherwise)
  | call _ _ _ _ _ _ _ _ _ _ _ args orderBy withinGroup filter windowed =>
    have arguments := image_union (image_unions args) (image_namesOf orderBy)
    exact image_union (image_union (image_union arguments (image_namesOf withinGroup))
      (image_namesOf filter)) (image_namesOf windowed)

end Phrase

/-- Replacing names after the fact is lexical scoping: the record of a query, its names
replaced by any map, is what the query means in the scope of that map, and the record
of a statement is what the statement means. -/
theorem lineage_lexically_scoped :
    (∀ (q : Query) (tables : KeyMap Names),
      ((Phrase.trace .query q).resolve tables).meaning = Phrase.eval .query q tables.toScope) ∧
    ∀ s : Statement, s.record.meaning = Phrase.eval .statement s := by
  constructor
  · intro q tables
    rw [Record.meaning_resolve]
    exact Phrase.trace_agrees q tables.toScope
  · intro s
    have flow : s.flow.meaning = Phrase.eval .statement s := Phrase.trace_agrees s
    unfold Statement.record
    split
    · rw [Record.meaning_withContext, flow]
    · exact flow

end TableLineage
