import Mathlib.Data.List.Nodup
import TableLineage.Proofs.KeyMap
import TableLineage.Store.Tables

/-! A record is taken apart into rows of four tables and put together again from them. The tables
are followed through the items they keep, one for each record: saving a record adds an item at the
end, and removing a run removes the items of that run and leaves the others as they are. -/
namespace TableLineage

open List

/-! ### Maps of sets of names -/

namespace KeyMap

/-- Whether a name is in the set under a key. -/
def Feeds (m : KeyMap Names) (k n : String) : Prop := ∃ ns, m.get? k = some ns ∧ ns.contains n

theorem ext_feeds {a b : KeyMap Names} (keys : ∀ k, a.contains k ↔ b.contains k)
    (feeds : ∀ k n, a.Feeds k n ↔ b.Feeds k n) : a = b := by
  refine ext_get? fun k => ?_
  have there := keys k
  rw [contains, contains] at there
  have inside := feeds k
  simp only [Feeds] at inside
  cases left : a.get? k with
  | none =>
    cases right : b.get? k with
    | none => rfl
    | some ns => simp [left, right] at there
  | some ns =>
    cases right : b.get? k with
    | none => simp [left, right] at there
    | some ns' =>
      congr 1
      refine Names.ext_contains fun n => ?_
      simpa [left, right] using inside n

theorem contains_foldl_insert (ks : List String) (m : KeyMap Names) (k : String) :
    (ks.foldl (fun m k => m.insert k Names.empty) m).contains k ↔ k ∈ ks ∨ m.contains k := by
  induction ks generalizing m with
  | nil => simp
  | cons first rest ih =>
    have added : (m.insert first Names.empty).contains k ↔ k = first ∨ m.contains k := by
      rw [contains, insert, get?_insertWith]
      by_cases same : k = first
      · cases m.get? first <;> simp [same]
      · simp [same, contains]
    rw [foldl_cons, ih, added, mem_cons, or_left_comm, or_assoc]

theorem not_feeds_foldl_insert (ks : List String) {m : KeyMap Names} (bare : ∀ k n, ¬ m.Feeds k n) (k n : String) :
    ¬ (ks.foldl (fun m k => m.insert k Names.empty) m).Feeds k n := by
  induction ks generalizing m with
  | nil => exact bare k n
  | cons first rest ih =>
    refine ih fun k n => ?_
    simp only [Feeds, insert, get?_insertWith]
    by_cases same : k = first
    · cases m.get? first <;> simp [same, Names.contains, contains, Names.empty]
    · rw [if_neg same]
      exact bare k n

theorem contains_foldl_union (ps : List (String × String)) (m : KeyMap Names) (k : String) :
    (ps.foldl (fun m p => m.insertWith Names.union p.1 (.single p.2)) m).contains k ↔
      (∃ p ∈ ps, p.1 = k) ∨ m.contains k := by
  induction ps generalizing m with
  | nil => simp
  | cons p rest ih =>
    have added : (m.insertWith Names.union p.1 (.single p.2)).contains k ↔ p.1 = k ∨ m.contains k := by
      rw [contains, get?_insertWith]
      by_cases same : k = p.1
      · cases m.get? p.1 <;> simp [same]
      · simp [same, Ne.symm same, contains]
    rw [foldl_cons, ih, added, exists_mem_cons_iff, or_left_comm, or_assoc]

theorem feeds_foldl_union (ps : List (String × String)) (m : KeyMap Names) (k n : String) :
    (ps.foldl (fun m p => m.insertWith Names.union p.1 (.single p.2)) m).Feeds k n ↔ (k, n) ∈ ps ∨ m.Feeds k n := by
  induction ps generalizing m with
  | nil => simp
  | cons p rest ih =>
    have added : (m.insertWith Names.union p.1 (.single p.2)).Feeds k n ↔ (k, n) = p ∨ m.Feeds k n := by
      have single : (Names.single p.2).contains n ↔ n = p.2 := by
        simp [Names.single, Names.contains, contains]
      rw [Feeds, Feeds, get?_insertWith]
      by_cases same : k = p.1
      · subst same
        cases m.get? p.1 <;> simp [Names.contains_union, single, Prod.ext_iff, or_comm]
      · simp [same, Prod.ext_iff]
    rw [foldl_cons, ih, added, mem_cons, or_left_comm, or_assoc]

end KeyMap

/-! ### Records -/

namespace Record

/-- Each written table of a record with each table that feeds it. -/
def pairs (r : Record) : List (String × String) :=
  r.sinks.entries.flatMap fun e => e.2.toList.map fun source => (e.1, source)

theorem mem_pairs {r : Record} {k n : String} : (k, n) ∈ r.pairs ↔ r.sinks.Feeds k n := by
  simp only [pairs, mem_flatMap, mem_map, Prod.mk.injEq, Prod.exists, KeyMap.Feeds]
  constructor
  · rintro ⟨k', ns, member, source, inside, rfl, rfl⟩
    exact ⟨ns, KeyMap.mem_entries.1 member, KeyMap.mem_keys.1 inside⟩
  · rintro ⟨ns, found, inside⟩
    exact ⟨k, ns, KeyMap.mem_entries.2 found, n, KeyMap.mem_keys.2 inside, rfl, rfl⟩

/-- The sinks of a record are found again from their names and the pairs. -/
theorem sinks_of_pairs (r : Record) : r.pairs.foldl (fun m p => m.insertWith Names.union p.1 (.single p.2))
    (r.sinks.keys.foldl (fun m k => m.insert k Names.empty) KeyMap.empty) = r.sinks := by
  have bare := KeyMap.not_feeds_foldl_insert r.sinks.keys (m := KeyMap.empty) (by simp [KeyMap.Feeds])
  refine KeyMap.ext_feeds (fun k => ?_) (fun k n => ?_)
  · rw [KeyMap.contains_foldl_union, KeyMap.contains_foldl_insert, KeyMap.mem_keys]
    have known : (∃ p ∈ r.pairs, p.1 = k) → r.sinks.contains k := by
      rintro ⟨⟨_, n⟩, member, rfl⟩
      obtain ⟨ns, found, _⟩ := mem_pairs.1 member
      rw [KeyMap.contains, found]
      rfl
    simpa [KeyMap.contains] using known
  · rw [KeyMap.feeds_foldl_union, or_iff_left (bare k n), mem_pairs]

/-- The record as it comes back from a store: a context that says nothing is lost. -/
def settled (r : Record) : Record :=
  { r with context := r.context.filter fun c => c.sourceName.isSome || c.range.isSome }

end Record

/-! ### Items -/

namespace Store

/-- A record with its place: the run and the number in the run. -/
structure Entry where
  runId : String
  number : Nat
  record : Record

/-- A record with its place and the key that its rows share. -/
structure Item extends Entry where
  key : Nat

namespace Item

def row (i : Item) : RecordRow := Tables.rowOf i.key i.runId i.number i.record

def sinkRows (i : Item) : List SinkRow := i.record.sinks.keys.map fun sink => ⟨i.key, sink⟩

def sourceRows (i : Item) : List SourceRow := i.record.sources.toList.map fun source => ⟨i.key, source⟩

def edgeRows (i : Item) : List EdgeRow := i.record.pairs.map fun p => ⟨i.key, p.1, p.2⟩

theorem contextOf_row (i : Item) : Tables.contextOf i.row = i.record.settled.context := by
  have range : i.row.range? = i.record.range? := by
    cases found : i.record.range? <;> simp [row, Tables.rowOf, RecordRow.range?, found]
  rw [Tables.contextOf, range]
  obtain ⟨⟨_, _, _, _, context⟩, _⟩ := i
  cases context with
  | none => rfl
  | some c =>
    obtain ⟨name, place⟩ := c
    cases name <;> cases place <;> rfl

end Item

variable {α β : Type} {items : List α}

/-- Rows that stand together for each item are chosen by choosing items. -/
theorem filter_flatMap_eq {rows : α → List β} {p : β → Bool} {q : α → Bool}
    (agree : ∀ i ∈ items, ∀ r ∈ rows i, p r = q i) : (items.flatMap rows).filter p = (items.filter q).flatMap rows := by
  induction items with
  | nil => rfl
  | cons i items ih =>
    obtain ⟨here, others⟩ := forall_mem_cons.1 agree
    have first : (rows i).filter p = if q i then rows i else [] := by
      cases chosen : q i with
      | true => exact filter_eq_self.2 fun r member => (here r member).trans chosen
      | false => exact filter_eq_nil_iff.2 fun r member => by simp [here r member, chosen]
    rw [flatMap_cons, filter_append, ih others, first, filter_cons]
    split <;> rfl

/-- Where names differ, a name picks one. -/
theorem filter_eq_singleton [DecidableEq β] {name : α → β} (different : (items.map name).Nodup) {i : α}
    (member : i ∈ items) : items.filter (fun j => name j == name i) = [i] := by
  obtain ⟨before, after, rfl⟩ := append_of_mem member
  rw [map_append, map_cons, nodup_middle, nodup_cons, ← map_append] at different
  have others : (before ++ after).filter (fun j => name j == name i) = [] := by
    refine filter_eq_nil_iff.2 fun j there same => different.1 ?_
    exact mem_map.2 ⟨j, there, by simpa using same⟩
  rw [filter_append, append_eq_nil_iff] at others
  rw [filter_append, filter_cons_of_pos (by simp), others.1, others.2]
  rfl

theorem find?_eq_some [DecidableEq β] {name : α → β} (different : (items.map name).Nodup) {i : α} (member : i ∈ items) :
    items.find? (fun j => name j == name i) = some i := by
  rw [← head?_filter, filter_eq_singleton different member]
  rfl

namespace Tables

/-- The tables keep these items: each table holds the rows of all of them, one after the other. -/
structure Keeps (t : Tables) (items : List Item) : Prop where
  records : t.records = items.map Item.row
  sinks : t.sinks = items.flatMap Item.sinkRows
  sources : t.sources = items.flatMap Item.sourceRows
  edges : t.edges = items.flatMap Item.edgeRows
  keys : (items.map (·.key)).Nodup
  bound : ∀ i ∈ items, i.key ≤ t.lastKey

namespace Keeps

variable {t : Tables} {items : List Item} {i : Item}

theorem insertRecord (keeps : t.Keeps items) (id : String) (r : Record) (n : Nat) :
    (t.insertRecord id r n).Keeps (items ++ [⟨⟨id, n, r⟩, t.lastKey + 1⟩]) where
  records := by simp [Tables.insertRecord, keeps.records, Item.row]
  sinks := by simp [Tables.insertRecord, keeps.sinks, Item.sinkRows]
  sources := by simp [Tables.insertRecord, keeps.sources, Item.sourceRows]
  edges := by simp [Tables.insertRecord, keeps.edges, Item.edgeRows, Record.pairs, map_flatMap, Function.comp_def]
  keys := by
    rw [map_append]
    refine nodup_append.2 ⟨keeps.keys, nodup_singleton _, ?_⟩
    intro k there new fresh same
    obtain ⟨i, member, rfl⟩ := mem_map.1 there
    have bound := keeps.bound i member
    rw [same, mem_singleton.1 fresh] at bound
    exact Nat.lt_irrefl _ bound
  bound i member := by
    rcases mem_append.1 member with old | new
    · exact Nat.le_succ_of_le (keeps.bound i old)
    · rw [mem_singleton.1 new]
      exact Nat.le_refl _

theorem eq_of_key (keeps : t.Keeps items) {j : Item} (there : i ∈ items) (here : j ∈ items) (same : i.key = j.key) :
    i = j :=
  inj_on_of_nodup_map keeps.keys there here same

/-- The rows with the key of an item are the rows of that item. -/
theorem filter_key (keeps : t.Keeps items) (member : i ∈ items) (parts : Item → List α) (row : Nat → α → β)
    {key : β → Nat} (keyed : ∀ k a, key (row k a) = k) :
    (items.flatMap fun j => (parts j).map (row j.key)).filter (fun r => key r == i.key) = (parts i).map (row i.key) := by
  have agree : ∀ j ∈ items, ∀ r ∈ (parts j).map (row j.key), (key r == i.key) = (j.key == i.key) := by
    intro j _ r there
    obtain ⟨a, _, rfl⟩ := mem_map.1 there
    rw [keyed]
  rw [filter_flatMap_eq agree, filter_eq_singleton keeps.keys member, flatMap_singleton]

theorem recordOf_row (keeps : t.Keeps items) (member : i ∈ items) : t.recordOf i.row = i.record.settled := by
  have sinks : t.sinks.filter (fun r => r.record == i.key) = i.sinkRows := by
    rw [keeps.sinks]
    exact keeps.filter_key member (·.record.sinks.keys) SinkRow.mk fun _ _ => rfl
  have sources : t.sources.filter (fun r => r.record == i.key) = i.sourceRows := by
    rw [keeps.sources]
    exact keeps.filter_key member (·.record.sources.toList) SourceRow.mk fun _ _ => rfl
  have edges : t.edges.filter (fun r => r.record == i.key) = i.edgeRows := by
    rw [keeps.edges]
    exact keeps.filter_key member (·.record.pairs) (fun k p => EdgeRow.mk k p.1 p.2) fun _ _ => rfl
  have key : i.row.key = i.key := rfl
  have sinks' : t.sinksOf i.key = i.record.sinks := by
    rw [sinksOf, sinks, edges, Item.sinkRows, Item.edgeRows, foldl_map, foldl_map]
    exact i.record.sinks_of_pairs
  have sources' : t.sourcesOf i.key = i.record.sources := by
    rw [sourcesOf, sources, Item.sourceRows, map_map]
    exact (congrArg Names.ofList (map_id _)).trans (Names.ofList_toList _)
  rw [recordOf, key, sinks', sources', i.contextOf_row]
  rfl

/-- Keys are given once, so the keys of a run are those of its items. -/
theorem contains_keys (keeps : t.Keeps items) (id : String) (member : i ∈ items) :
    ((t.records.filter fun r => r.runId == id).map (·.key)).contains i.key = (i.runId == id) := by
  rw [Bool.eq_iff_iff, contains_iff_mem, keeps.records]
  constructor
  · intro there
    obtain ⟨r, found, same⟩ := mem_map.1 there
    obtain ⟨known, ofRun⟩ := mem_filter.1 found
    obtain ⟨j, other, rfl⟩ := mem_map.1 known
    rw [keeps.eq_of_key member other same.symm]
    exact ofRun
  · intro ofRun
    exact mem_map.2 ⟨i.row, mem_filter.2 ⟨mem_map_of_mem member, ofRun⟩, rfl⟩

/-- The rows that stay are those of the items of other runs. -/
theorem filter_run (keeps : t.Keeps items) (id : String) (parts : Item → List α) (row : Nat → α → β) {key : β → Nat}
    (keyed : ∀ k a, key (row k a) = k) :
    (items.flatMap fun j => (parts j).map (row j.key)).filter
        (fun r => !((t.records.filter fun r => r.runId == id).map (·.key)).contains (key r)) =
      (items.filter fun i => i.runId != id).flatMap fun j => (parts j).map (row j.key) := by
  refine filter_flatMap_eq fun i member r inside => ?_
  obtain ⟨a, _, rfl⟩ := mem_map.1 inside
  rw [keyed, keeps.contains_keys id member]
  rfl

theorem deleteRun (keeps : t.Keeps items) (id : String) :
    (t.deleteRun id).Keeps (items.filter fun i => i.runId != id) where
  records := by
    rw [Tables.deleteRun, keeps.records, filter_map]
    rfl
  sinks := by
    simp only [Tables.deleteRun, keeps.sinks]
    exact keeps.filter_run id (·.record.sinks.keys) SinkRow.mk fun _ _ => rfl
  sources := by
    simp only [Tables.deleteRun, keeps.sources]
    exact keeps.filter_run id (·.record.sources.toList) SourceRow.mk fun _ _ => rfl
  edges := by
    simp only [Tables.deleteRun, keeps.edges]
    exact keeps.filter_run id (·.record.pairs) (fun k p => EdgeRow.mk k p.1 p.2) fun _ _ => rfl
  keys := keeps.keys.sublist (filter_sublist.map _)
  bound i member := keeps.bound i (mem_filter.1 member).1

end Keeps
end Tables
end Store
end TableLineage
