import TableLineage.Proofs.Graph.Order

/-! What a graph answers depends on what was said about its tables, and not on when. Two graphs that say
the same may list their edges differently; every answer is sorted, or told by distances and longest ways,
and comes out the same. Records say the same in any order: they count how often a table is read and
written, and link tables. -/
namespace TableLineage

open List

theorem KeyMap.count_keys {β : Type} (m : KeyMap β) (k : String) : m.keys.count k = if m.contains k then 1 else 0 := by
  have once : m.keys.Nodup := m.sorted_keys.imp ne_of_lt
  rw [once.count]
  exact if_congr KeyMap.mem_keys rfl rfl

theorem Names.toList_ofList {row : List String} (once : row.Nodup) : (Names.ofList row).toList.Perm row := by
  refine (perm_ext_iff_of_nodup ((KeyMap.sorted_keys _).imp ne_of_lt) once).2 fun n => ?_
  exact KeyMap.mem_keys.trans (Names.contains_ofList row n)

/-- Whether a record tells of a table at all. -/
def Record.Mentions (r : Record) (name : String) : Prop :=
  r.sources.contains name ∨ r.sinks.contains name ∨ ∃ sink, r.sinks.Feeds sink name

namespace Graph

variable {g h : Graph}

/-- Two graphs say the same about the same tables. -/
structure Alike (g h : Graph) : Prop where
  counts : g.counts = h.counts
  feeds : ∀ a b, g.Feeds a b ↔ h.Feeds a b

/-- Two graphs give the same answers. -/
structure SameAnswers (g h : Graph) : Prop where
  nodes : g.counts.entries = h.counts.entries
  parents : ∀ name, g.parents name = h.parents name
  children : ∀ name, g.children name = h.children name
  selfReferences : g.selfReferences = h.selfReferences
  upstream : ∀ name depth, g.upstream name depth = h.upstream name depth
  downstream : ∀ name depth, g.downstream name depth = h.downstream name depth
  levels : g.levels = h.levels
  order : g.order = h.order
  cycle : g.cycle? = h.cycle?

/-! ### Graphs that say the same -/

theorem keys_counts : g.counts.keys = g.names := by
  rw [counts, KeyMap.keys, KeyMap.map, map_map]
  rfl

theorem place_congr (parents : ∀ name, g.parents name = h.parents name) (fuel : Nat) : g.place fuel = h.place fuel := by
  induction fuel with
  | zero => rfl
  | succ fuel ih =>
    funext p name
    rw [place, place, ih, parents]

namespace Alike

variable (alike : Alike g h)

include alike

theorem names : g.names = h.names := by
  rw [← keys_counts, alike.counts, keys_counts]

theorem nodeCount : g.nodeCount = h.nodeCount := by
  rw [← length_names, alike.names, length_names]

theorem has {a : String} : g.Has a ↔ h.Has a := by
  rw [← mem_names, alike.names, mem_names]

variable (sound : g.Sound) (sound' : h.Sound)

include sound sound'

theorem edge : g.Edge = h.Edge := by
  funext a b
  rw [propext sound.edge_iff_feeds, propext sound'.edge_iff_feeds, propext (alike.feeds a b)]

theorem children (name : String) : g.children name = h.children name := by
  have edges := congrFun (alike.edge sound sound') name
  exact Names.ext_contains fun a => iff_of_eq (congrFun edges a)

theorem parents (name : String) : g.parents name = h.parents name := by
  refine Names.ext_contains fun a => ?_
  rw [contains_parents sound, contains_parents sound', alike.edge sound sound']

theorem cycle? : g.cycle? = h.cycle? := by
  have next : g.children = h.children := funext (alike.children sound sound')
  rw [Graph.cycle?, Graph.cycle?, visitAll, visitAll, alike.names, alike.nodeCount, next]

theorem order : g.order = h.order := by
  rw [Graph.order, Graph.order, alike.cycle? sound sound', placed, placed, alike.names, alike.nodeCount,
    place_congr (alike.parents sound sound')]

theorem levels : g.levels = h.levels := by
  rw [Graph.levels, Graph.levels, alike.cycle? sound sound']
  cases found : h.cycle? with
  | some c => rfl
  | none =>
    have leveled : Leveled g g.levelMap :=
      leveled_levelsAlong sound (acyclic_of_no_cycle sound ((alike.cycle? sound sound').trans found)) fun _ => mem_names
    have leveled' : Leveled h h.levelMap :=
      leveled_levelsAlong sound' (acyclic_of_no_cycle sound' found) fun _ => mem_names
    have moved : Leveled h g.levelMap := by
      refine ⟨fun a l known => ?_, fun a here => leveled.all a (alike.has.2 here)⟩
      rw [← alike.has, ← alike.edge sound sound']
      exact leveled.right a l known
    rw [moved.unique leveled']

theorem sameAnswers : SameAnswers g h where
  nodes := by rw [alike.counts]
  parents := alike.parents sound sound'
  children := alike.children sound sound'
  selfReferences := by
    refine (KeyMap.sorted_keys _).eq_of_mem_iff (KeyMap.sorted_keys _) fun a => ?_
    exact sound.mem_selfReferences_iff.trans ((alike.feeds a a).trans sound'.mem_selfReferences_iff.symm)
  upstream name depth := by
    refine (sorted_reach name depth).eq_of_mem_iff (sorted_reach name depth) fun a => ?_
    exact (mem_upstream sound ..).trans (alike.edge sound sound' ▸ (mem_upstream sound' ..).symm)
  downstream name depth := by
    refine (sorted_reach name depth).eq_of_mem_iff (sorted_reach name depth) fun a => ?_
    exact (mem_downstream sound ..).trans (alike.edge sound sound' ▸ (mem_downstream sound' ..).symm)
  levels := alike.levels sound sound'
  order := alike.order sound sound'
  cycle := alike.cycle? sound sound'

end Alike

/-! ### What records count -/

section

variable {α : Type} {step : Graph → α → Graph} {n : Graph → Nat}

/-- A row of steps counts those of them that count. -/
theorem count_foldl {p : α → Bool} (one : ∀ x g, n (step g x) = n g + if p x then 1 else 0) (xs : List α) (g : Graph) :
    n (xs.foldl step g) = n g + xs.countP p := by
  induction xs generalizing g with
  | nil => rfl
  | cons x xs ih =>
    rw [foldl_cons, ih, one, countP_cons]
    omega

theorem count_foldl_of_none (one : ∀ x g, n (step g x) = n g) (xs : List α) (g : Graph) : n (xs.foldl step g) = n g :=
  List.foldlRecOn (motive := fun h => n h = n g) _ _ rfl fun h same x _ => (one x h).trans same

end

/-- A count of a table that has nothing to do with its edges. -/
structure Unlinked (n : TableNode → Nat) : Prop where
  child : ∀ name t, n (t.addChild name) = n t
  parent : ∀ name t, n (t.addParent name) = n t
  mark : ∀ t, n { t with feedsItself := true } = n t

theorem unlinked_reads : Unlinked (·.reads) := ⟨fun _ _ => rfl, fun _ _ => rfl, fun _ => rfl⟩

theorem unlinked_writes : Unlinked (·.writes) := ⟨fun _ _ => rfl, fun _ _ => rfl, fun _ => rfl⟩

section

variable (a : String)

theorem Unlinked.addEdge {n : TableNode → Nat} (unlinked : Unlinked n) (source sink : String) :
    n ((g.addEdge source sink).nodeAt a) = n (g.nodeAt a) := by
  by_cases loop : source = sink
  · subst loop
    rw [addEdge_self, Graph.mark, nodeAt_update]
    split
    · exact unlinked.mark _
    · rfl
  · rw [nodeAt_addEdge a loop]
    split
    · exact unlinked.parent _ _
    · split
      · exact unlinked.child _ _
      · rfl

theorem Unlinked.addSink {n : TableNode → Nat} (unlinked : Unlinked n) (sink : String × Names) :
    n ((g.addSink sink).nodeAt a) = n ((g.addWrite sink.1).nodeAt a) :=
  count_foldl_of_none (n := fun g => n (g.nodeAt a)) (fun source _ => unlinked.addEdge a source sink.1) _ _

/-- A record counts as a read of each of its sources. -/
theorem reads_addRecord (r : Record) :
    ((g.addRecord r).nodeAt a).reads = (g.nodeAt a).reads + if r.sources.contains a then 1 else 0 := by
  have read (name : String) (g : Graph) :
      ((g.addRead name).nodeAt a).reads = (g.nodeAt a).reads + if name == a then 1 else 0 := by
    rw [addRead, nodeAt_update]
    by_cases same : a = name <;> simp [same, Ne.symm]
  have written (sink : String × Names) (g : Graph) : ((g.addSink sink).nodeAt a).reads = (g.nodeAt a).reads := by
    rw [unlinked_reads.addSink, addWrite, nodeAt_update]
    split <;> rfl
  rw [addRecord, count_foldl_of_none (n := fun g => (g.nodeAt a).reads) written,
    count_foldl (n := fun g => (g.nodeAt a).reads) read]
  exact congrArg _ (KeyMap.count_keys _ a)

/-- A record counts as a write of each of its sinks. -/
theorem writes_addRecord (r : Record) :
    ((g.addRecord r).nodeAt a).writes = (g.nodeAt a).writes + if r.sinks.contains a then 1 else 0 := by
  have read (name : String) (g : Graph) : ((g.addRead name).nodeAt a).writes = (g.nodeAt a).writes := by
    rw [addRead, nodeAt_update]
    split <;> rfl
  have written (sink : String × Names) (g : Graph) :
      ((g.addSink sink).nodeAt a).writes = (g.nodeAt a).writes + if sink.1 == a then 1 else 0 := by
    rw [unlinked_writes.addSink, addWrite, nodeAt_update]
    by_cases same : a = sink.1 <;> simp [same, Ne.symm]
  rw [addRecord, count_foldl (n := fun g => (g.nodeAt a).writes) written,
    count_foldl_of_none (n := fun g => (g.nodeAt a).writes) read]
  rw [← KeyMap.count_keys, KeyMap.keys, List.count, countP_map]
  rfl

theorem has_addSink (sink : String × Names) :
    (g.addSink sink).Has a ↔ (a = sink.1 ∨ sink.2.contains a) ∨ g.Has a := by
  rw [addSink, foldl_iff (P := (·.Has a)) fun source _ g =>
    (has_addEdge (g := g) source sink.1 a).trans or_assoc.symm, addWrite, has_update]
  simp only [Names.toList, KeyMap.mem_keys]
  constructor
  · rintro (⟨_, inside, rfl | same⟩ | same | old)
    · exact .inl (.inr inside)
    · exact .inl (.inl same)
    · exact .inl (.inl same)
    · exact .inr old
  · rintro ((same | inside) | old)
    · exact .inr (.inl same)
    · exact .inl ⟨a, inside, .inl rfl⟩
    · exact .inr (.inr old)

theorem has_addRecord (r : Record) : (g.addRecord r).Has a ↔ r.Mentions a ∨ g.Has a := by
  have read (name : String) (g : Graph) : (g.addRead name).Has a ↔ a = name ∨ g.Has a := has_update ..
  rw [addRecord, foldl_iff (P := (·.Has a)) fun sink _ _ => has_addSink a sink,
    foldl_iff (P := (·.Has a)) fun name _ g => read name g]
  simp only [Record.Mentions, Names.toList, KeyMap.mem_keys, KeyMap.Feeds]
  constructor
  · rintro (⟨⟨k, ns⟩, member, rfl | inside⟩ | ⟨_, inside, rfl⟩ | old)
    · exact .inl (.inr (.inl (KeyMap.mem_keys.1 (mem_map_of_mem member))))
    · exact .inl (.inr (.inr ⟨k, ns, KeyMap.mem_entries.1 member, inside⟩))
    · exact .inl (.inl inside)
    · exact .inr old
  · rintro ((inside | inside | ⟨k, ns, found, inside⟩) | old)
    · exact .inr (.inl ⟨a, inside, rfl⟩)
    · obtain ⟨sink, member, same⟩ := mem_map.1 (KeyMap.mem_keys.2 inside)
      exact .inl ⟨sink, member, .inl same.symm⟩
    · exact .inl ⟨(k, ns), KeyMap.mem_entries.2 found, .inr inside⟩
    · exact .inr (.inr old)

end

/-! ### Records in any order -/

section

variable (records : List Record) (a : String)

theorem ofRecords_eq_build : ofRecords records = build (records.map .record) := by
  rw [build, foldl_map]
  rfl

theorem has_ofRecords : (ofRecords records).Has a ↔ ∃ r ∈ records, r.Mentions a := by
  rw [ofRecords, addRecords, foldl_iff (P := (·.Has a)) fun r _ _ => has_addRecord a r]
  exact or_iff_left Bool.false_ne_true

theorem reads_ofRecords : ((ofRecords records).nodeAt a).reads = records.countP (·.sources.contains a) := by
  rw [ofRecords, addRecords, count_foldl (n := fun g => (g.nodeAt a).reads) fun r _ => reads_addRecord a r]
  exact Nat.zero_add _

theorem writes_ofRecords : ((ofRecords records).nodeAt a).writes = records.countP (·.sinks.contains a) := by
  rw [ofRecords, addRecords, count_foldl (n := fun g => (g.nodeAt a).writes) fun r _ => writes_addRecord a r]
  exact Nat.zero_add _

end

theorem counts_ext (has : ∀ a, g.Has a ↔ h.Has a) (reads : ∀ a, (g.nodeAt a).reads = (h.nodeAt a).reads)
    (writes : ∀ a, (g.nodeAt a).writes = (h.nodeAt a).writes) : g.counts = h.counts := by
  refine KeyMap.ext_get? fun a => ?_
  by_cases here : g.Has a
  · rw [get?_counts_of_has here, get?_counts_of_has ((has a).1 here), reads, writes]
  · have none {g : Graph} (absent : ¬ g.Has a) : g.counts.get? a = none := by
      rw [← contains_counts] at absent
      exact Option.not_isSome_iff_eq_none.1 absent
    rw [none here, none (mt (has a).2 here)]

theorem alike_ofRecords {records records' : List Record} (same : records.Perm records') :
    Alike (ofRecords records) (ofRecords records') where
  counts := by
    refine counts_ext (fun a => ?_) (fun a => ?_) fun a => ?_
    · simp only [has_ofRecords, same.mem_iff]
    · rw [reads_ofRecords, reads_ofRecords, same.countP_eq]
    · rw [writes_ofRecords, writes_ofRecords, same.countP_eq]
  feeds a b := by
    simp only [ofRecords_eq_build, feeds_build, (same.map Call.record).mem_iff]

theorem alike_partAlong (sound : g.Sound) {names row : List String}
    (covers : ∀ a, a ∈ row ↔ (g.nodesOnly names).Has a) : Alike (g.partAlong names row) (g.subgraph names) where
  counts := by rw [counts_partAlong covers, counts_subgraph]
  feeds a b := by rw [feeds_partAlong covers sound, feeds_subgraph names sound]

/-- One graph is what another says about some of its tables. -/
structure PartOf (part whole : Graph) (names : List String) : Prop where
  counts : part.counts = whole.counts.filter names.contains
  edges : ∀ a b, part.Edge a b ↔ whole.Edge a b ∧ a ∈ names ∧ b ∈ names
  selfReferences : part.selfReferences = whole.selfReferences.filter names.contains

theorem partOf_subgraph (sound : g.Sound) (names : List String) : PartOf (g.subgraph names) g names where
  counts := counts_subgraph names
  edges a b := by
    rw [(sound_subgraph names).edge_iff_feeds, feeds_subgraph names sound, sound.edge_iff_feeds, and_assoc]
  selfReferences := by
    refine (KeyMap.sorted_keys _).eq_of_mem_iff ((KeyMap.sorted_keys _).filter _) fun a => ?_
    rw [mem_filter, contains_iff_mem]
    refine (sound_subgraph names).mem_selfReferences_iff.trans ?_
    rw [feeds_subgraph names sound, and_self]
    exact and_congr_left' sound.mem_selfReferences_iff.symm

/-- Whatever is done to a graph, an edge stands once in each of its two lists, which are read sorted, and a
table that is written from itself is marked instead. A part has the named tables as they are, in whichever
order its edges are taken over, and records that change places give the same answers. -/
theorem consistent_in_any_order :
    (∀ ops : List Operation, (made ops).Sound ∧
      (∀ a, ((made ops).children a).toList.Perm ((made ops).childList a) ∧
        ((made ops).parents a).toList.Perm ((made ops).parentList a)) ∧
      (∀ a b, (made ops).Edge a b ↔ a ≠ b ∧ Told ops a b) ∧
      ∀ a, a ∈ (made ops).selfReferences ↔ Told ops a a) ∧
    (∀ (ops : List Operation) (names : List String), PartOf ((made ops).subgraph names) (made ops) names ∧
      ∀ row, row.Perm ((made ops).nodesOnly names).names →
        SameAnswers ((made ops).partAlong names row) ((made ops).subgraph names)) ∧
    ∀ records records' : List Record, records.Perm records' → SameAnswers (ofRecords records) (ofRecords records') := by
  refine ⟨fun ops => ?_, fun ops names => ?_, fun records records' same => ?_⟩
  · have sound := sound_made ops
    refine ⟨sound, fun a => ⟨Names.toList_ofList (sound.childrenOnce a), Names.toList_ofList (sound.parentsOnce a)⟩,
      fun a b => ?_, fun a => ?_⟩
    · rw [sound.edge_iff_feeds, feeds_made]
    · rw [sound.mem_selfReferences_iff, feeds_made]
  · have sound := sound_made ops
    refine ⟨partOf_subgraph sound names, fun row same => ?_⟩
    have covers (a : String) : a ∈ row ↔ ((made ops).nodesOnly names).Has a := same.mem_iff.trans mem_names
    exact (alike_partAlong sound covers).sameAnswers (sound_partAlong names row) (sound_subgraph names)
  · have sound (records : List Record) : (ofRecords records).Sound := ofRecords_eq_build records ▸ sound_build _
    exact (alike_ofRecords same).sameAnswers (sound records) (sound records')

end Graph
end TableLineage
