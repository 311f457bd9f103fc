import TableLineage.Proofs.Store.Order
import TableLineage.Proofs.Store.Rows
import TableLineage.Store.Basic

/-! Tables hold a list of runs. Saving a run puts it at the end of the list, removing one takes it
out, and what the tables answer can be read off the list. -/
namespace TableLineage.Store

open List

/-- A run with what was saved of it. -/
structure SavedRun where
  id : String
  sourceName : String
  createdAt : Instant
  records : List Record

/-- Whether a table stands at either end of a pair. -/
def touches (table : String) (p : String × String) : Bool := p.1 == table || p.2 == table

variable {s : SavedRun}

namespace SavedRun

def row (s : SavedRun) : RunRow := ⟨s.id, s.sourceName, s.createdAt⟩

def run (s : SavedRun) : Run := ⟨s.id, s.sourceName, s.createdAt, s.records.length⟩

def entries (s : SavedRun) : List Entry := s.records.zipIdx.map fun e => ⟨s.id, e.2, e.1⟩

/-- The records as they come back. -/
def loaded (s : SavedRun) : List Record := s.records.map Record.settled

/-- For each record, the pairs at either end of which the table stands. -/
def edges (table : String) (s : SavedRun) : List SavedEdge :=
  s.records.flatMap fun r => (r.pairs.filter (touches table)).map fun p => ⟨s.id, p.1, p.2⟩

/-- The same with what they are sorted by. -/
def found (table : String) (s : SavedRun) : List Tables.FoundEdge :=
  s.entries.flatMap fun e =>
    (e.record.pairs.filter (touches table)).map fun p => ⟨s.createdAt, e.number, s.id, p.1, p.2⟩

theorem runId_of_mem_entries {e : Entry} (member : e ∈ s.entries) : e.runId = s.id := by
  obtain ⟨_, _, rfl⟩ := mem_map.1 member
  rfl

theorem map_record_entries (s : SavedRun) : s.entries.map (·.record) = s.records := by
  rw [entries, map_map]
  exact zipIdx_map_fst ..

theorem map_edge_found (table : String) (s : SavedRun) : (s.found table).map (·.edge) = s.edges table := by
  rw [edges, ← s.map_record_entries, flatMap_map, found, map_flatMap]
  simp only [map_map, Function.comp_def]

theorem number_entries (s : SavedRun) : s.entries.Pairwise fun a b => a.number ≤ b.number := by
  have numbers : (s.entries.map (·.number)).Pairwise (· ≤ ·) := by
    rw [entries, map_map]
    change (s.records.zipIdx.map Prod.snd).Pairwise (· ≤ ·)
    rw [zipIdx_map_snd, ← range_eq_range']
    exact pairwise_le_range
  exact pairwise_map.1 numbers

end SavedRun

namespace Tables

/-- The tables hold these runs, in the order in which they were saved. -/
structure Holds (t : Tables) (saved : List SavedRun) : Prop where
  runs : t.runs = saved.map SavedRun.row
  ids : (saved.map (·.id)).Nodup
  kept : ∃ items, t.Keeps items ∧ items.map (·.toEntry) = saved.flatMap SavedRun.entries

theorem holds_empty : empty.Holds [] := ⟨rfl, .nil, [], ⟨rfl, rfl, rfl, rfl, .nil, by simp⟩, rfl⟩

/-! ### Changes -/

theorem runs_foldl_insertRecord (id : String) (es : List (Record × Nat)) (t : Tables) :
    (es.foldl (fun t e => t.insertRecord id e.1 e.2) t).runs = t.runs := by
  induction es generalizing t with
  | nil => rfl
  | cons e es ih => exact ih _

variable {items : List Item}

theorem Keeps.foldl_insertRecord {t : Tables} (keeps : t.Keeps items) (id : String) (es : List (Record × Nat)) :
    ∃ items', (es.foldl (fun t e => t.insertRecord id e.1 e.2) t).Keeps items' ∧
      items'.map (·.toEntry) = items.map (·.toEntry) ++ es.map fun e => ⟨id, e.2, e.1⟩ := by
  induction es generalizing t items with
  | nil => exact ⟨items, keeps, by simp⟩
  | cons e es ih =>
    obtain ⟨items', kept, same⟩ := ih (keeps.insertRecord id e.1 e.2)
    exact ⟨items', kept, by simpa using same⟩

namespace Holds

variable {t : Tables} {saved : List SavedRun}

theorem insertRun (holds : t.Holds saved) (s : SavedRun) (fresh : s.id ∉ saved.map (·.id)) :
    (t.insertRun s.row s.records).Holds (saved ++ [s]) where
  runs := by
    rw [Tables.insertRun, runs_foldl_insertRecord, holds.runs, map_append, map_singleton]
  ids := by
    rw [map_append]
    refine nodup_append.2 ⟨holds.ids, nodup_singleton _, ?_⟩
    intro id there new member same
    rw [same, mem_singleton.1 member] at there
    exact fresh there
  kept := by
    obtain ⟨items, keeps, same⟩ := holds.kept
    have listed : Keeps { t with runs := t.runs ++ [s.row] } items :=
      ⟨keeps.records, keeps.sinks, keeps.sources, keeps.edges, keeps.keys, keeps.bound⟩
    obtain ⟨items', kept, same'⟩ := listed.foldl_insertRecord s.id s.records.zipIdx
    refine ⟨items', kept, ?_⟩
    rw [same', same, flatMap_append, flatMap_singleton]
    rfl

theorem deleteRun (holds : t.Holds saved) (id : String) :
    (t.deleteRun id).Holds (saved.filter fun s => s.id != id) where
  runs := by
    rw [Tables.deleteRun, holds.runs, filter_map]
    rfl
  ids := holds.ids.sublist (filter_sublist.map _)
  kept := by
    obtain ⟨items, keeps, same⟩ := holds.kept
    refine ⟨_, keeps.deleteRun id, ?_⟩
    have agree : ∀ s ∈ saved, ∀ e ∈ s.entries, (e.runId != id) = (s.id != id) := by
      intro s _ e member
      rw [SavedRun.runId_of_mem_entries member]
    rw [← filter_flatMap_eq agree, ← same, filter_map]
    rfl

/-! ### Questions -/

theorem filter_id (holds : t.Holds saved) (id : String) :
    saved.filter (fun s => s.id == id) = (saved.find? fun s => s.id == id).toList := by
  cases found : saved.find? fun s => s.id == id with
  | none => exact filter_eq_nil_iff.2 (find?_eq_none.1 found)
  | some s =>
    obtain rfl : s.id = id := by simpa using find?_some found
    exact filter_eq_singleton holds.ids (mem_of_find?_eq_some found)

/-- What the tables keep of a run is all that was saved of it. -/
theorem items_of_run (holds : t.Holds saved) (same : items.map (·.toEntry) = saved.flatMap SavedRun.entries)
    (id : String) :
    (items.filter fun i => i.runId == id).map (·.toEntry) =
      (saved.find? fun s => s.id == id).toList.flatMap SavedRun.entries := by
  have agree : ∀ s ∈ saved, ∀ e ∈ s.entries, (e.runId == id) = (s.id == id) := by
    intro s _ e member
    rw [SavedRun.runId_of_mem_entries member]
  rw [← holds.filter_id, ← filter_flatMap_eq agree, ← same, filter_map]
  rfl

theorem recordsOf_eq (keeps : t.Keeps items) (id : String) :
    t.recordsOf id = (items.filter fun i => i.runId == id).map Item.row := by
  rw [recordsOf, keeps.records, filter_map]
  rfl

theorem load_eq (holds : t.Holds saved) (id : String) :
    t.load id = (saved.find? fun s => s.id == id).toList.flatMap SavedRun.loaded := by
  obtain ⟨items, keeps, same⟩ := holds.kept
  have ofRun := holds.items_of_run same id
  have inOrder : ((items.filter fun i => i.runId == id).map Item.row).Pairwise fun a b => a.number ≤ b.number := by
    have numbers : ((items.filter fun i => i.runId == id).map (·.toEntry)).Pairwise fun a b => a.number ≤ b.number := by
      rw [ofRun]
      cases saved.find? fun s => s.id == id with
      | none => exact .nil
      | some s => simpa using s.number_entries
    rw [pairwise_map] at numbers ⊢
    exact numbers
  rw [load, recordsOf_eq keeps, mergeSort_of_pairwise (by simpa using inOrder), map_map]
  have settled : ∀ i ∈ items.filter (fun i => i.runId == id), (t.recordOf ∘ Item.row) i = i.record.settled :=
    fun i member => keeps.recordOf_row (mem_filter.1 member).1
  have entries := congrArg (List.map fun e : Entry => e.record.settled) ofRun
  rw [map_map] at entries
  rw [map_congr_left settled]
  refine entries.trans ?_
  cases saved.find? fun s => s.id == id with
  | none => rfl
  | some s =>
    have records := congrArg (List.map Record.settled) s.map_record_entries
    rw [map_map] at records
    simpa [Function.comp_def, SavedRun.loaded] using records

theorem runOf_row (holds : t.Holds saved) (member : s ∈ saved) : t.runOf s.row = s.run := by
  obtain ⟨items, keeps, same⟩ := holds.kept
  have ofRun := congrArg List.length (holds.items_of_run same s.id)
  have count : (t.recordsOf s.id).length = s.records.length := by
    simpa [recordsOf_eq keeps, find?_eq_some holds.ids member, SavedRun.entries] using ofRun
  rw [runOf, SavedRun.run, ← count]
  rfl

theorem find?_runs (holds : t.Holds saved) (id : String) :
    t.runs.find? (fun r => r.id == id) = (saved.find? fun s => s.id == id).map SavedRun.row := by
  rw [holds.runs, find?_map]
  rfl

theorem run?_eq (holds : t.Holds saved) (id : String) :
    t.run? id = (saved.find? fun s => s.id == id).map SavedRun.run := by
  rw [run?, holds.find?_runs]
  cases found : saved.find? fun s => s.id == id with
  | none => rfl
  | some s => exact congrArg some (holds.runOf_row (mem_of_find?_eq_some found))

theorem runList_eq (holds : t.Holds saved) : t.runList = (saved.map SavedRun.run).mergeSort standsBefore := by
  rw [runList, holds.runs, map_map]
  exact congrArg (List.mergeSort · standsBefore) (map_congr_left fun s member => holds.runOf_row member)

/-- An edge row is found together with the record and the run that it belongs to. -/
theorem found?_edgeRow (holds : t.Holds saved) (keeps : t.Keeps items) {i : Item} (there : i ∈ items)
    (member : s ∈ saved) (ofRun : i.runId = s.id) (p : String × String) :
    t.found? ⟨i.key, p.1, p.2⟩ = some ⟨s.createdAt, i.number, s.id, p.1, p.2⟩ := by
  have record : t.records.find? (fun r => r.key == i.key) = some i.row := by
    have found := find?_eq_some keeps.keys there
    rw [keeps.records, find?_map]
    exact congrArg (Option.map Item.row) found
  have run : t.runs.find? (fun r => r.id == i.row.runId) = some s.row := by
    have named : i.row.runId = s.id := ofRun
    rw [holds.find?_runs, named, find?_eq_some holds.ids member]
    rfl
  rw [found?, record]
  simp only [Option.bind_eq_bind, Option.bind_some, run]
  rfl

theorem edgesOf_eq (holds : t.Holds saved) (table : String) :
    t.edgesOf table = ((saved.flatMap (SavedRun.found table)).mergeSort FoundEdge.standsBefore).map (·.edge) := by
  obtain ⟨items, keeps, same⟩ := holds.kept
  -- What is found for a record hangs on its entry alone, not on its key.
  let spread (e : Entry) : List FoundEdge := (saved.find? fun s => s.id == e.runId).toList.flatMap fun s =>
    (e.record.pairs.filter (touches table)).map fun p => ⟨s.createdAt, e.number, s.id, p.1, p.2⟩
  have ofItem : ∀ i ∈ items, ((i.edgeRows.filter fun e => e.sink == table || e.source == table).filterMap t.found?) =
      spread i.toEntry := by
    intro i there
    have entry : i.toEntry ∈ saved.flatMap SavedRun.entries := same ▸ mem_map_of_mem there
    obtain ⟨s, member, inside⟩ := mem_flatMap.1 entry
    have ofRun := SavedRun.runId_of_mem_entries inside
    have rows := holds.found?_edgeRow keeps there member ofRun
    have run : saved.find? (fun s => s.id == i.runId) = some s := by rw [ofRun, find?_eq_some holds.ids member]
    simp only [spread, run, Item.edgeRows, filter_map, filterMap_map, Function.comp_def, rows,
      filterMap_eq_map', Option.toList_some, flatMap_singleton]
    rfl
  have ofRun : ∀ s ∈ saved, s.entries.flatMap spread = s.found table := by
    intro s member
    refine flatMap_congr fun e inside => ?_
    simp only [spread, SavedRun.runId_of_mem_entries inside, find?_eq_some holds.ids member, Option.toList_some,
      flatMap_singleton]
  have found : (t.edges.filter fun e => e.sink == table || e.source == table).filterMap t.found? =
      saved.flatMap (SavedRun.found table) :=
    calc
      _ = items.flatMap fun i => spread i.toEntry := by
        rw [keeps.edges, filter_flatMap, filterMap_flatMap, flatMap_congr ofItem]
      _ = (saved.flatMap SavedRun.entries).flatMap spread := by
        rw [← same, flatMap_map]
      _ = _ := by
        rw [flatMap_assoc, flatMap_congr ofRun]
  rw [edgesOf, found]

theorem edgesOf_perm (holds : t.Holds saved) (table : String) :
    (t.edgesOf table).Perm (saved.flatMap (SavedRun.edges table)) := by
  have edges : saved.flatMap (SavedRun.edges table) = (saved.flatMap (SavedRun.found table)).map (·.edge) := by
    rw [map_flatMap]
    exact flatMap_congr fun s _ => (s.map_edge_found table).symm
  rw [holds.edgesOf_eq, edges]
  exact (mergeSort_perm ..).map _

/-- Which edges of a run are listed and in which order hangs on that run alone. -/
theorem filter_edgesOf (holds : t.Holds saved) (table id : String) :
    (t.edgesOf table).filter (fun e => e.runId == id) =
      (((saved.find? fun s => s.id == id).toList.flatMap (SavedRun.found table)).mergeSort
        FoundEdge.standsBefore).map (·.edge) := by
  have agree : ∀ s ∈ saved, ∀ e ∈ s.found table, (e.edge.runId == id) = (s.id == id) := by
    intro s _ e member
    obtain ⟨_, _, inside⟩ := mem_flatMap.1 member
    obtain ⟨_, _, rfl⟩ := mem_map.1 inside
    rfl
  rw [holds.edgesOf_eq, filter_map, ← holds.filter_id, ← filter_flatMap_eq agree]
  congr 1
  refine (mergeSort_eq FoundEdge.standsBefore_iff ?_ ?_ ?_).symm
  · intro a there b here same
    obtain ⟨_, ofRun⟩ := mem_filter.1 there
    obtain ⟨_, ofRun'⟩ := mem_filter.1 here
    exact FoundEdge.eq_of_rank same ((beq_iff_eq.1 ofRun).trans (beq_iff_eq.1 ofRun').symm)
  · exact (pairwise_mergeSort FoundEdge.standsBefore_iff _).filter _
  · exact (mergeSort_perm ..).filter _

end Holds
end Tables
end TableLineage.Store
