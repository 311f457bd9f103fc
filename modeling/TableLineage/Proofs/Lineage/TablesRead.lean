import Mathlib.Data.List.Forall2
import TableLineage.Lineage.Extract
import TableLineage.Proofs.Lineage.ReadScopes
import TableLineage.Statement.Outline
import TableLineage.Statement.Script

/-! The record of a statement accounts for what the statement reads. By induction over
phrases every record and every set of names is that of the leaves and outlets. -/
namespace TableLineage

open List

namespace Statement

/-- The table that a statement makes of all that it reads. -/
def target? : Statement → Option String
  | .insert _ _ t _ _ | .delete _ _ t _ _ => some t.name
  | .createTableAs _ n _ _ _ _ _ | .createView _ n _ _ _ _ _ => some n
  | .alterRename _ n m => some (schemaOf n ++ m)
  | _ => none

/-- The query of a statement. -/
def query? : Statement → Option Query
  | .select q | .insert _ _ _ q _ | .createTableAs _ _ _ _ _ _ q | .createView _ _ _ _ _ _ q => some q
  | _ => none

/-- The base tables that feed a table written by a statement. -/
def feeds (s : Statement) : Scope :=
  ((s.target?.map fun name => Scope.only name {n | s.Reads n}).getD .nothing).join
    (fedBy (s.query?.toList.map .query))

end Statement

/-- What lineage keeps of a phrase is that of the leaves and outlets of the phrase. -/
def Accounts : (c : Category) → Phrase c → Trace c → Prop
  | .statement, s, r => r.meaning = ⟨{n | Statement.Reads s n}, Statement.feeds s⟩
  | .query, q, r | .body, q, r => r.meaning = ⟨readBy q.leaves, fedBy q.outlets⟩
  | .withs, w, r => r.sinks.toScope = clauseScope (Phrase.some w).tables
  | .cte, t, add => ∀ before r, r.sinks.toScope = clauseScope before →
      (add r).sinks.toScope = clauseScope (before ++ [t])
  | .sources, p, r | .sourceItem, p, r | .source, p, r | .join, p, r => r.meaning = ⟨readBy p.leaves, .nothing⟩
  | .many c, xs, ts => xs.leaves = xs.toList.flatMap Phrase.leaves ∧ List.Forall₂ (Accounts c) xs.toList ts
  | .maybe c, x, t => Option.Rel (Accounts c) x.toOption t
  | .target, p, ns | .sort, p, ns | .sortItem, p, ns | .windowDef, p, ns | .window, p, ns | .overClause, p, ns
  | .condition, p, ns | .expr, p, ns | .inSource, p, ns | .when, p, ns => ns.toSet = readBy p.leaves

theorem Statement.reads_eq_image (s : Statement) :
    {n | s.Reads n} = (clauseScope s.clause).image (readBy s.leaves) := by
  ext n
  rw [mem_image_clauseScope]
  constructor
  · rintro ⟨leaf, member, m, read, behind⟩
    exact ⟨m, ⟨leaf, member, read⟩, behind⟩
  · rintro ⟨m, ⟨leaf, member, read⟩, behind⟩
    exact ⟨leaf, member, m, read, behind⟩

variable {r : Record} {c : Category} {xs : Phrase (.many c)}

/-- What a statement reads feeds its target, beside what its query writes. -/
theorem Statement.accounts {s : Statement} {read : Set String}
    (same : r.meaning = ⟨read, ((s.target?.map fun name => Scope.only name read).getD .nothing).join
      (fedBy (s.query?.toList.map .query))⟩) (reads : read = (clauseScope s.clause).image (readBy s.leaves)) :
    Accounts .statement s r := by
  subst reads
  change r.meaning = ⟨{n | s.Reads n}, s.feeds⟩
  rw [same, Statement.feeds, s.reads_eq_image]

theorem Accounts.meaning_query {q : Query} (agree : Accounts .query q r) :
    r.meaning = ⟨readBy [.query q], fedBy [.query q]⟩ := by
  cases q
  exact agree

theorem Accounts.toSet_sources {q : Query} (agree : Accounts .query q r) : r.sources.toSet = readBy [.query q] :=
  congrArg Meaning.reads agree.meaning_query

theorem readBy_union {a b : Names} {xs ys : List Leaf} (left : a.toSet = readBy xs)
    (right : b.toSet = readBy ys) : (a.union b).toSet = readBy (xs ++ ys) := by
  rw [Names.toSet_union, left, right, readBy_append]

theorem readBy_unions {sets : List Names} (agree : xs.leaves = xs.toList.flatMap Phrase.leaves ∧
      List.Forall₂ (fun (x : Phrase c) ns => ns.toSet = readBy x.leaves) xs.toList sets) :
    (Names.unions sets).toSet = readBy xs.leaves := by
  obtain ⟨leaves, agree⟩ := agree
  rw [leaves]
  generalize xs.toList = members at agree
  induction agree with
  | nil => simp [Names.unions]
  | cons same _ ih => rw [Names.toSet_unions_cons, same, ih, flatMap_cons, readBy_append]

/-- Sources count with the tables that they read. -/
theorem toSet_unions_sources {records : List Record} (agree : xs.leaves = xs.toList.flatMap Phrase.leaves ∧
      List.Forall₂ (fun (x : Phrase c) r => Record.meaning r = ⟨readBy x.leaves, .nothing⟩) xs.toList records) :
    (Names.unions (records.map Record.sources)).toSet = readBy xs.leaves := by
  refine readBy_unions ⟨agree.1, ?_⟩
  rw [forall₂_map_right_iff]
  exact agree.2.imp fun _ _ same => congrArg Meaning.reads same

theorem readBy_namesOf {x : Phrase (.maybe c)} {names : Option Names}
    (agree : Option.Rel (fun (y : Phrase c) ns => ns.toSet = readBy y.leaves) x.toOption names) :
    (namesOf names).toSet = readBy x.leaves := by
  cases x with
  | none =>
    cases agree
    exact Names.toSet_empty.trans readBy_nil.symm
  | some y =>
    cases agree with
    | some same => exact same

theorem meaning_foldl_merge {records : List Record} (agree : xs.leaves = xs.toList.flatMap Phrase.leaves ∧
      List.Forall₂ (fun (x : Phrase c) r => Record.meaning r = ⟨readBy x.leaves, .nothing⟩) xs.toList records)
    {read : Set String} (start : r.meaning = ⟨read, .nothing⟩) :
    (records.foldl Record.merge r).meaning = ⟨read ∪ readBy xs.leaves, .nothing⟩ := by
  obtain ⟨leaves, agree⟩ := agree
  rw [leaves]
  generalize xs.toList = members at agree
  induction agree generalizing r read with
  | nil => simpa using start
  | @cons x next _ _ same _ ih =>
    have step : (r.merge next).meaning = ⟨read ∪ readBy x.leaves, .nothing⟩ := by
      rw [Record.meaning_merge, start, same]
      simp [Meaning.join]
    rw [foldl_cons, ih step, flatMap_cons, readBy_append, Set.union_assoc]

/-- Tables of a clause are bound in turn. -/
theorem toScope_foldl_add {ts : List (Phrase .cte)} {adds : List (Record → Record)}
    (agree : List.Forall₂ (Accounts .cte) ts adds) {before : List (Phrase .cte)}
    (start : r.sinks.toScope = clauseScope before) :
    (adds.foldl (fun tables add => add tables) r).sinks.toScope = clauseScope (before ++ ts) := by
  induction agree generalizing before r with
  | nil => simpa using start
  | cons same _ ih => rw [foldl_cons, ih (same before r start), append_assoc, singleton_append]

theorem toScope_declared {w : Phrase (.maybe .withs)} {withs : Option Record}
    (agree : Option.Rel (Accounts .withs) w.toOption withs) : (declared withs).toScope = clauseScope w.tables := by
  cases w with
  | none =>
    cases agree
    change Record.empty.sinks.toScope = clauseScope []
    simp [Record.empty]
  | some =>
    cases agree with
    | some same => exact same

theorem meaning_merge_reading {x : Phrase (.maybe .sources)} {src : Option Record}
    (agree : Option.Rel (fun (y : Phrase .sources) r => Record.meaning r = ⟨readBy y.leaves, .nothing⟩)
      x.toOption src)
    {ns : Names} {ys : List Leaf} (same : ns.toSet = readBy ys) :
    ((src.getD .empty).merge (.reading ns)).meaning = ⟨readBy (x.leaves ++ ys), .nothing⟩ := by
  have there : (src.getD .empty).meaning = ⟨readBy x.leaves, .nothing⟩ := by
    cases x with
    | none =>
      cases agree
      change Record.empty.meaning = ⟨readBy [], .nothing⟩
      simp
    | some =>
      cases agree with
      | some same => exact same
  rw [Record.meaning_merge, there, readBy_append]
  simp [Meaning.join, same]

/-- All that a block reads feeds the table that its rows go into. -/
theorem meaning_merge_into {leaves : List Leaf} (reads : r.meaning = ⟨readBy leaves, .nothing⟩) (name : String) :
    (r.merge ⟨.single name r.sources, .empty, none⟩).meaning = ⟨readBy leaves, fedBy [.into name leaves]⟩ := by
  have same : r.sources.toSet = readBy leaves := congrArg Meaning.reads reads
  rw [Record.meaning_merge, reads]
  simp [Record.meaning, Meaning.join, same]

namespace Phrase

theorem trace_accounts (p : Phrase c) : Accounts c p (trace c p) := by
  induction p with
  | none => exact .none
  | some _ ih => exact .some ih
  | nil => exact ⟨rfl, .nil⟩
  | cons x xs first rest => exact ⟨congrArg (x.leaves ++ ·) rest.1, .cons first rest.2⟩
  | select q ih =>
    have same : (trace .query q).meaning = ⟨readBy [.query q], Scope.nothing.join (fedBy [.query q])⟩ := by
      rw [ih.meaning_query, Scope.nothing_join]
    exact Statement.accounts same (image_clauseScope_nil _).symm
  | insert _ w t q _ withs query =>
    have same : (((Record.writing t.name (trace .query q).sources).resolve
        (declared (trace (.maybe .withs) w))).mergeOnlySinks (trace .query q)).meaning =
        ⟨(clauseScope w.tables).image (readBy [.query q]),
          (Scope.only t.name ((clauseScope w.tables).image (readBy [.query q]))).join (fedBy [.query q])⟩ := by
      rw [Record.meaning_mergeOnlySinks, Record.meaning_resolve, Record.meaning_writing, query.toSet_sources,
        query.meaning_query, toScope_declared withs, Meaning.under, Scope.only_within]
    exact Statement.accounts same rfl
  | delete _ w t us f withs items filter =>
    have same {ns : Names} (read : ns.toSet = readBy (us.leaves ++ f.leaves)) :
        ((Record.writing t.name ns).resolve (declared (trace (.maybe .withs) w))).meaning =
        ⟨(clauseScope w.tables).image (readBy (us.leaves ++ f.leaves)),
          (Scope.only t.name ((clauseScope w.tables).image (readBy (us.leaves ++ f.leaves)))).join (fedBy [])⟩ := by
      rw [Record.meaning_resolve, Record.meaning_writing, read, toScope_declared withs, Meaning.under,
        Scope.only_within, fedBy_nil, Scope.join_nothing]
    have read := readBy_union (toSet_unions_sources items) (readBy_namesOf filter)
    exact Statement.accounts (same read) rfl
  | createTableAs _ n _ _ _ _ q ih | createView _ n _ _ _ _ q ih =>
    have same : (createdFrom n (trace .query q)).meaning =
        ⟨readBy [.query q], (Scope.only n (readBy [.query q])).join (fedBy [.query q])⟩ := by
      rw [createdFrom, Record.meaning_mergeOnlySinks, Record.meaning_writing, ih.toSet_sources, ih.meaning_query]
    exact Statement.accounts same (image_clauseScope_nil _).symm
  | createTable | drop =>
    have same : Record.empty.meaning = ⟨readBy [], Scope.nothing.join (fedBy [])⟩ := by simp
    exact Statement.accounts same (image_clauseScope_nil _).symm
  | alterRename _ n m =>
    have same : (renamed n m).meaning =
        ⟨readBy [.table n], (Scope.only (schemaOf n ++ m) (readBy [.table n])).join (fedBy [])⟩ := by simp [renamed]
    exact Statement.accounts same (image_clauseScope_nil _).symm
  | query s w b o l f withs body =>
    have inner : (trace .body b).meaning = ⟨readBy b.leaves, fedBy b.outlets⟩ := body
    change ((trace .body b).resolve (declared (trace (.maybe .withs) w))).meaning =
      ⟨readBy [.query (.query s w b o l f)], fedBy [.query (.query s w b o l f)]⟩
    rw [Record.meaning_resolve, toScope_declared withs, readBy_query, fedBy_query, inner, Meaning.under]
  | withs _ _ _ tables =>
    have none : Record.empty.sinks.toScope = clauseScope [] := by simp [Record.empty]
    exact toScope_foldl_add tables.2 none
  | cte _ n _ q ih =>
    intro before r start
    have query : ((trace .query q).resolve r.sinks).meaning =
        ⟨(clauseScope before).image (readBy [.query q]), (fedBy [.query q]).within (clauseScope before)⟩ := by
      rw [Record.meaning_resolve, ih.meaning_query, start]
      rfl
    have read : ((trace .query q).resolve r.sinks).sources.toSet = _ := congrArg Meaning.reads query
    have written : ((trace .query q).resolve r.sinks).sinks.toScope = _ := congrArg Meaning.writes query
    change ((r.merge (.writing n _)).merge ((trace .query q).resolve r.sinks)).sinks.toScope = _
    simp only [Record.merge, Record.writing, Record.toScope_mergeSinks, KeyMap.toScope_single,
      clauseScope_append_single, start, read, written]
  | core _ _ _ _ ts into src f _ h q _ _ _ labels sources filter _ having qualify _ =>
    have others := readBy_union (readBy_unions labels) (readBy_union (readBy_namesOf filter)
      (readBy_union (readBy_namesOf having) (readBy_namesOf qualify)))
    have read := meaning_merge_reading sources others
    cases into with
    | none => exact read
    | some i => exact meaning_merge_into read i.name
  | combine _ _ _ l r left right =>
    have first : (trace .body l).meaning = ⟨readBy l.leaves, fedBy l.outlets⟩ := left
    have second : (trace .body r).meaning = ⟨readBy r.leaves, fedBy r.outlets⟩ := right
    change (Record.merge (trace .body l) (trace .body r)).meaning =
      ⟨readBy (l.leaves ++ r.leaves), fedBy (l.outlets ++ r.outlets)⟩
    rw [Record.meaning_merge, first, second, readBy_append, fedBy_append, Meaning.join]
  | values =>
    change Record.empty.meaning = ⟨readBy [], fedBy []⟩
    simp
  | nested _ _ ih => exact ih.meaning_query
  | star | joinUsing | overName | hole | constant => exact Names.toSet_empty.trans readBy_nil.symm
  | labelled _ _ _ ih | joinOn _ _ ih | sortItem _ _ _ _ ih | windowDef _ _ _ ih | overWindow _ ih
  | unary _ _ _ ih | quantifiedExpr _ _ _ ih | collate _ _ _ ih | cast _ _ _ ih => exact ih
  | sources _ _ items =>
    have all := meaning_foldl_merge items Record.meaning_empty
    rwa [Set.empty_union] at all
  | sourceItem _ _ _ source joins =>
    have all := meaning_foldl_merge joins source
    rwa [← readBy_append] at all
  | table t =>
    change (Record.reading (.single t.name)).meaning = ⟨readBy [.table t.name], .nothing⟩
    simp
  | subquery _ q _ ih =>
    change (Record.reading (trace .query q).sources).meaning = ⟨readBy [.query q], .nothing⟩
    rw [Record.meaning_reading, ih.toSet_sources]
  | parens _ _ _ ih | crossJoin _ _ ih | qualifiedJoin _ _ _ _ _ _ ih => exact ih
  | inQuery _ _ ih | quantifiedQuery _ _ _ ih | nonempty _ _ ih => exact ih.toSet_sources
  | sort _ _ items | inValues _ _ items | column _ _ _ _ items | row _ _ items | special _ _ _ items =>
    exact readBy_unions items
  | window _ _ _ _ _ partitionBy orderBy => exact readBy_union (readBy_unions partitionBy) (readBy_namesOf orderBy)
  | binary _ _ _ _ left right | within _ _ _ _ left right | when _ _ _ left right =>
    exact readBy_union left right
  | between _ _ _ _ _ _ target lower upper => exact readBy_union (readBy_union target lower) upper
  | like _ _ _ _ _ _ target pattern escape => exact readBy_union (readBy_union target pattern) (readBy_namesOf escape)
  | scalar _ _ _ _ query subscripts => exact readBy_union query.toSet_sources (readBy_unions subscripts)
  | choice _ _ _ _ subject whens otherwise =>
    exact readBy_union (readBy_union (readBy_namesOf subject) (readBy_unions whens)) (readBy_namesOf otherwise)
  | call _ _ _ _ _ _ _ _ _ _ _ args orderBy withinGroup filter windowed =>
    have arguments := readBy_union (readBy_unions args) (readBy_namesOf orderBy)
    exact readBy_union (readBy_union (readBy_union arguments (readBy_namesOf withinGroup)) (readBy_namesOf filter))
      (readBy_namesOf windowed)

end Phrase

theorem Statement.meaning_record (s : Statement) : s.record.meaning = ⟨{n | s.Reads n}, s.feeds⟩ := by
  have flow : s.flow.meaning = ⟨{n | s.Reads n}, s.feeds⟩ := Phrase.trace_accounts s
  unfold record
  split
  · rw [Record.meaning_withContext, flow]
  · exact flow

/-- The statement of a text that holds just one. -/
def Statement.ofText? (text : String) : Option Statement :=
  match Script.ofText false text with
  | .ok ⟨[s], _⟩ => some s
  | _ => none

end TableLineage
