import TableLineage.Graph.Basic
import TableLineage.Proofs.Store.Rows

/-! Graphs built call by call. What a graph adds is what its calls said: it has an edge for each two
tables that some call linked. An edge is listed once at each of its ends, and both of them are tables
of the graph. -/
namespace TableLineage

open List

theorem KeyMap.mem_keys_filterEntries {β : Type} {m : KeyMap β} {keep : String → β → Bool} {k : String} :
    k ∈ (m.filterEntries keep).keys ↔ ∃ v, m.get? k = some v ∧ keep k v := by
  simp only [← mem_entries, keys, filterEntries, mem_map, mem_filter]
  constructor
  · rintro ⟨⟨_, v⟩, ⟨there, kept⟩, rfl⟩
    exact ⟨v, there, kept⟩
  · rintro ⟨v, there, kept⟩
    exact ⟨(k, v), ⟨there, kept⟩, rfl⟩

namespace TableNode

theorem mem_listed (row : List String) (name n : String) : n ∈ listed row name ↔ n = name ∨ n ∈ row := by
  unfold listed
  split
  · next old =>
    refine ⟨.inr, ?_⟩
    rintro (rfl | inside)
    · exact contains_iff_mem.1 old
    · exact inside
  · rw [mem_append, mem_singleton, or_comm]

theorem nodup_listed {row : List String} (once : row.Nodup) (name : String) : (listed row name).Nodup := by
  unfold listed
  split
  · exact once
  · next fresh =>
    have apart : name ∉ row := fun inside => fresh (contains_iff_mem.2 inside)
    exact nodup_append_comm.1 (nodup_cons.2 ⟨apart, once⟩)

/-- A change of a table that leaves its edges. -/
structure KeepsEdges (f : TableNode → TableNode) : Prop where
  children : ∀ t, (f t).children = t.children
  parents : ∀ t, (f t).parents = t.parents

/-- A change of a table that leaves its edges and its mark. -/
structure Neutral (f : TableNode → TableNode) : Prop extends KeepsEdges f where
  mark : ∀ t, (f t).feedsItself = t.feedsItself

theorem neutral_id : Neutral id := ⟨⟨fun _ => rfl, fun _ => rfl⟩, fun _ => rfl⟩

theorem neutral_read : Neutral fun t => { t with reads := t.reads + 1 } :=
  ⟨⟨fun _ => rfl, fun _ => rfl⟩, fun _ => rfl⟩

theorem neutral_write : Neutral fun t => { t with writes := t.writes + 1 } :=
  ⟨⟨fun _ => rfl, fun _ => rfl⟩, fun _ => rfl⟩

theorem neutral_countedAs (t : TableNode) : Neutral t.countedAs := ⟨⟨fun _ => rfl, fun _ => rfl⟩, fun _ => rfl⟩

end TableNode

namespace Graph

open TableNode

/-- A call that adds to a graph. -/
inductive Call where
  | node (name : String)
  | edge (source sink : String)
  | record (r : Record)

def act (g : Graph) : Call → Graph
  | .node name => g.addNode name
  | .edge source sink => g.addEdge source sink
  | .record r => g.addRecord r

/-- The graph that a row of calls leads to. -/
def build (calls : List Call) : Graph := calls.foldl act empty

/-- Whether a call adds that `sink` is written from `source`. -/
def Call.Links : Call → String → String → Prop
  | .node _, _, _ => False
  | .edge a b, source, sink => source = a ∧ sink = b
  | .record r, source, sink => r.sinks.Feeds sink source

/-- Whether one of the calls links two different tables. -/
def Linked (calls : List Call) (source sink : String) : Prop := source ≠ sink ∧ ∃ c ∈ calls, c.Links source sink

def Has (g : Graph) (name : String) : Prop := g.tables.contains name

def Edge (g : Graph) (source sink : String) : Prop := (g.children source).contains sink

/-- Whether a graph adds that `b` is written from `a`: by an edge or, of a table itself, by its mark. -/
def Feeds (g : Graph) (a b : String) : Prop := b ∈ g.childList a ∨ a = b ∧ (g.nodeAt a).feedsItself

variable {g : Graph} {a b name : String}

theorem mem_names : name ∈ g.names ↔ g.Has name := KeyMap.mem_keys

theorem length_names : g.names.length = g.nodeCount := length_map _

theorem edge_iff : g.Edge a b ↔ b ∈ g.childList a := Names.contains_ofList _ _

theorem nodeAt_eq_blank (absent : ¬ g.Has a) : g.nodeAt a = .blank := by
  unfold Has KeyMap.contains at absent
  rw [nodeAt, node?, Option.not_isSome_iff_eq_none.1 absent]
  rfl

theorem Feeds.has (feeds : g.Feeds a b) : g.Has a := by
  by_contra absent
  rw [Feeds, childList, nodeAt_eq_blank absent] at feeds
  simp [blank] at feeds

theorem Edge.has {a b : String} (edge : g.Edge a b) : g.Has a := Feeds.has (.inl (edge_iff.1 edge))

theorem mem_selfReferences : a ∈ g.selfReferences ↔ (g.nodeAt a).feedsItself := by
  rw [selfReferences, KeyMap.mem_keys_filterEntries, nodeAt, node?]
  cases g.tables.get? a <;> simp [blank]

/-- What a row of steps makes true, if each of them makes it true under a condition of its own and
otherwise leaves it. -/
theorem foldl_iff {α : Type} {step : Graph → α → Graph} {P : Graph → Prop} {adds : α → Prop} {xs : List α}
    (one : ∀ x ∈ xs, ∀ g, P (step g x) ↔ adds x ∨ P g) (g : Graph) :
    P (xs.foldl step g) ↔ (∃ x ∈ xs, adds x) ∨ P g := by
  induction xs generalizing g with
  | nil => simp
  | cons x xs ih =>
    obtain ⟨first, rest⟩ := forall_mem_cons.1 one
    rw [foldl_cons, ih rest, first, exists_mem_cons_iff, or_left_comm, or_assoc]

/-! ### What one change does -/

section

variable (name : String) (f : TableNode → TableNode) (a b : String)

theorem has_update : (g.update name f).Has a ↔ a = name ∨ g.Has a := by
  unfold Has update KeyMap.contains
  rw [KeyMap.get?_insertWith]
  by_cases same : a = name
  · cases g.tables.get? name <;> simp [same]
  · simp [same]

theorem nodeAt_update : (g.update name f).nodeAt a = if a = name then f (g.nodeAt a) else g.nodeAt a := by
  unfold nodeAt node? update
  rw [KeyMap.get?_insertWith]
  by_cases same : a = name
  · subst same
    cases g.tables.get? a <;> simp
  · simp [same]

variable {f} in
theorem feeds_update (neutral : Neutral f) : (g.update name f).Feeds a b ↔ g.Feeds a b := by
  unfold Feeds childList
  rw [nodeAt_update]
  split
  · rw [neutral.children, neutral.mark]
  · rfl

end

section

variable (source sink a b : String)

theorem has_addEdge : (g.addEdge source sink).Has a ↔ a = source ∨ a = sink ∨ g.Has a := by
  unfold addEdge mark
  split
  · next same => simp [has_update, same]
  · rw [has_update, has_update, or_left_comm]

theorem addEdge_self : g.addEdge source source = g.mark source := if_pos rfl

variable {source sink} in
theorem nodeAt_addEdge (different : source ≠ sink) : (g.addEdge source sink).nodeAt a =
    if a = sink then (g.nodeAt a).addParent source else if a = source then (g.nodeAt a).addChild sink
    else g.nodeAt a := by
  rw [addEdge, if_neg different, nodeAt_update, nodeAt_update]
  split
  · next finish => rw [if_neg (finish.trans_ne (Ne.symm different))]
  · rfl

theorem mem_childList_addEdge : b ∈ (g.addEdge source sink).childList a ↔
    (source ≠ sink ∧ a = source ∧ b = sink) ∨ b ∈ g.childList a := by
  unfold childList
  by_cases loop : source = sink
  · subst loop
    rw [addEdge_self, mark, nodeAt_update]
    split <;> simp
  · rw [nodeAt_addEdge a loop]
    split
    · next finish => simp [addParent, finish, Ne.symm loop]
    · split
      · next start => simp [addChild, mem_listed, start, loop]
      · next other => simp [other]

theorem mem_parentList_addEdge : a ∈ (g.addEdge source sink).parentList b ↔
    (source ≠ sink ∧ a = source ∧ b = sink) ∨ a ∈ g.parentList b := by
  unfold parentList
  by_cases loop : source = sink
  · subst loop
    rw [addEdge_self, mark, nodeAt_update]
    split <;> simp
  · rw [nodeAt_addEdge b loop]
    split
    · next finish => simp [addParent, mem_listed, finish, loop]
    · next other => split <;> simp [addChild, other]

theorem feedsItself_addEdge : ((g.addEdge source sink).nodeAt a).feedsItself ↔
    (source = sink ∧ a = source) ∨ (g.nodeAt a).feedsItself := by
  by_cases loop : source = sink
  · subst loop
    rw [addEdge_self, mark, nodeAt_update]
    split <;> simp [*]
  · rw [nodeAt_addEdge a loop]
    split
    · simp [addParent, loop]
    · split <;> simp [addChild, loop]

theorem feeds_addEdge : (g.addEdge source sink).Feeds a b ↔ (a = source ∧ b = sink) ∨ g.Feeds a b := by
  rw [Feeds, Feeds, mem_childList_addEdge, feedsItself_addEdge]
  constructor
  · rintro ((⟨-, edge⟩ | old) | ⟨rfl, ⟨rfl, rfl⟩ | old⟩)
    · exact .inl edge
    · exact .inr (.inl old)
    · exact .inl ⟨rfl, rfl⟩
    · exact .inr (.inr ⟨rfl, old⟩)
  · rintro (⟨rfl, rfl⟩ | old | ⟨rfl, old⟩)
    · by_cases loop : a = b
      · exact .inr ⟨loop, .inl ⟨loop, rfl⟩⟩
      · exact .inl (.inl ⟨loop, rfl, rfl⟩)
    · exact .inl (.inr old)
    · exact .inr ⟨rfl, .inr old⟩

end

/-! ### What calls do -/

section

variable (a b : String)

theorem feeds_addSink (sink : String × Names) :
    (g.addSink sink).Feeds a b ↔ (b = sink.1 ∧ sink.2.contains a) ∨ g.Feeds a b := by
  rw [addSink, foldl_iff (P := (·.Feeds a b)) fun source _ _ => feeds_addEdge source sink.1 a b, addWrite,
    feeds_update _ _ _ neutral_write]
  simp only [Names.toList, KeyMap.mem_keys]
  refine or_congr_left ⟨?_, ?_⟩
  · rintro ⟨_, inside, rfl, same⟩
    exact ⟨same, inside⟩
  · rintro ⟨same, inside⟩
    exact ⟨a, inside, rfl, same⟩

theorem feeds_foldl_addRead (names : List String) : (names.foldl addRead g).Feeds a b ↔ g.Feeds a b := by
  induction names generalizing g with
  | nil => rfl
  | cons name rest ih => rw [foldl_cons, ih, addRead, feeds_update _ _ _ neutral_read]

theorem feeds_addRecord (r : Record) : (g.addRecord r).Feeds a b ↔ r.sinks.Feeds b a ∨ g.Feeds a b := by
  rw [addRecord, foldl_iff (P := (·.Feeds a b)) fun sink _ _ => feeds_addSink a b sink, feeds_foldl_addRead,
    KeyMap.Feeds]
  simp only [← KeyMap.mem_entries]
  refine or_congr_left ⟨?_, ?_⟩
  · rintro ⟨⟨_, ns⟩, member, rfl, inside⟩
    exact ⟨ns, member, inside⟩
  · rintro ⟨ns, member, inside⟩
    exact ⟨(b, ns), member, rfl, inside⟩

/-- A call adds what it says and leaves the rest. -/
theorem feeds_act (c : Call) : (g.act c).Feeds a b ↔ c.Links a b ∨ g.Feeds a b := by
  cases c with
  | node name =>
    rw [act, addNode, feeds_update _ _ _ neutral_id]
    exact (or_iff_right id).symm
  | edge source sink => exact feeds_addEdge source sink a b
  | record r => exact feeds_addRecord a b r

theorem not_feeds_empty : ¬ empty.Feeds a b := by
  rintro (edge | ⟨-, mark⟩)
  · cases edge
  · cases mark

theorem feeds_build (calls : List Call) : (build calls).Feeds a b ↔ ∃ c ∈ calls, c.Links a b := by
  rw [build, foldl_iff (P := (·.Feeds a b)) fun c _ _ => feeds_act a b c]
  exact or_iff_left (not_feeds_empty a b)

end

/-! ### Both ends of an edge -/

/-- Every edge leads to a table of the graph. -/
def Closed (g : Graph) : Prop := ∀ a b, g.Edge a b → g.Has b

/-- The lists of a graph agree. -/
structure Sound (g : Graph) : Prop where
  /-- An edge that one of its ends lists is listed by the other. -/
  transposed : ∀ a b, b ∈ g.childList a ↔ a ∈ g.parentList b
  childrenOnce : ∀ a, (g.childList a).Nodup
  parentsOnce : ∀ a, (g.parentList a).Nodup
  loopless : ∀ a, a ∉ g.childList a
  known : ∀ a b, b ∈ g.childList a → g.Has a ∧ g.Has b

theorem sound_empty : empty.Sound where
  transposed _ _ := ⟨fun edge => absurd edge not_mem_nil, fun edge => absurd edge not_mem_nil⟩
  childrenOnce _ := nodup_nil
  parentsOnce _ := nodup_nil
  loopless _ := not_mem_nil
  known _ _ edge := absurd edge not_mem_nil

namespace Sound

variable (sound : g.Sound)

include sound

theorem closed : g.Closed := fun a b edge => (sound.known a b (edge_iff.1 edge)).2

theorem mem_parentList : a ∈ g.parentList b ↔ g.Edge a b := by
  rw [← sound.transposed, edge_iff]

theorem feeds_known (feeds : g.Feeds a b) : g.Has a ∧ g.Has b := by
  obtain edge | ⟨rfl, mark⟩ := feeds
  · exact sound.known a b edge
  · have here := Feeds.has (.inr ⟨rfl, mark⟩)
    exact ⟨here, here⟩

theorem edge_iff_feeds : g.Edge a b ↔ a ≠ b ∧ g.Feeds a b := by
  rw [edge_iff]
  constructor
  · intro edge
    refine ⟨?_, .inl edge⟩
    rintro rfl
    exact sound.loopless a edge
  · rintro ⟨different, edge | ⟨same, -⟩⟩
    · exact edge
    · exact absurd same different

theorem mem_selfReferences_iff : a ∈ g.selfReferences ↔ g.Feeds a a := by
  rw [mem_selfReferences]
  constructor
  · exact fun mark => .inr ⟨rfl, mark⟩
  · rintro (edge | ⟨-, mark⟩)
    · exact absurd edge (sound.loopless a)
    · exact mark

theorem update {f : TableNode → TableNode} (keeps : KeepsEdges f) (name : String) : (g.update name f).Sound := by
  have children (a : String) : (g.update name f).childList a = g.childList a := by
    rw [childList, nodeAt_update]
    split
    · exact keeps.children _
    · rfl
  have parents (a : String) : (g.update name f).parentList a = g.parentList a := by
    rw [parentList, nodeAt_update]
    split
    · exact keeps.parents _
    · rfl
  constructor
  all_goals simp only [children, parents]
  · exact sound.transposed
  · exact sound.childrenOnce
  · exact sound.parentsOnce
  · exact sound.loopless
  · exact fun a b edge => (sound.known a b edge).imp ((has_update ..).2 <| .inr ·) ((has_update ..).2 <| .inr ·)

theorem mark (name : String) : (g.mark name).Sound :=
  sound.update (f := fun t => { t with feedsItself := true }) ⟨fun _ => rfl, fun _ => rfl⟩ name

theorem addEdge (source sink : String) : (g.addEdge source sink).Sound := by
  by_cases loop : source = sink
  · subst loop
    rw [addEdge_self]
    exact sound.mark source
  constructor
  · intro a b
    rw [mem_childList_addEdge, mem_parentList_addEdge, sound.transposed]
  · intro a
    rw [childList, nodeAt_addEdge a loop]
    split
    · exact sound.childrenOnce a
    · split
      · exact nodup_listed (sound.childrenOnce a) sink
      · exact sound.childrenOnce a
  · intro a
    rw [parentList, nodeAt_addEdge a loop]
    split
    · exact nodup_listed (sound.parentsOnce a) source
    · split
      · exact sound.parentsOnce a
      · exact sound.parentsOnce a
  · intro a edge
    obtain ⟨-, rfl, same⟩ | old := (mem_childList_addEdge ..).1 edge
    · exact loop same
    · exact sound.loopless a old
  · intro a b edge
    rw [has_addEdge, has_addEdge]
    obtain ⟨-, start, finish⟩ | old := (mem_childList_addEdge ..).1 edge
    · exact ⟨.inl start, .inr (.inl finish)⟩
    · exact (sound.known a b old).imp (.inr <| .inr ·) (.inr <| .inr ·)

theorem addSink (sink : String × Names) : (g.addSink sink).Sound :=
  List.foldlRecOn _ _ (sound.update neutral_write.toKeepsEdges sink.1) fun _ sound source _ =>
    sound.addEdge source sink.1

theorem addRecord (r : Record) : (g.addRecord r).Sound := by
  have read : (r.sources.toList.foldl addRead g).Sound :=
    List.foldlRecOn _ _ sound fun _ sound name _ => sound.update neutral_read.toKeepsEdges name
  exact List.foldlRecOn _ _ read fun _ sound sink _ => sound.addSink sink

theorem act (c : Call) : (g.act c).Sound := by
  cases c with
  | node name => exact sound.update neutral_id.toKeepsEdges name
  | edge source sink => exact sound.addEdge source sink
  | record r => exact sound.addRecord r

end Sound

theorem sound_build (calls : List Call) : (build calls).Sound :=
  List.foldlRecOn _ _ sound_empty fun _ sound c _ => sound.act c

theorem closed_build (calls : List Call) : (build calls).Closed := (sound_build calls).closed

/-- A graph has an edge just where one of its calls linked two different tables. -/
theorem edge_build (calls : List Call) (a b : String) : (build calls).Edge a b ↔ Linked calls a b := by
  rw [(sound_build calls).edge_iff_feeds, feeds_build, Linked]

/-! ### Parts of graphs -/

/-- How often each table is read and written. -/
def counts (g : Graph) : KeyMap (Nat × Nat) := g.tables.map fun t => (t.reads, t.writes)

theorem get?_counts (a : String) : g.counts.get? a = (g.node? a).map fun t => (t.reads, t.writes) := KeyMap.get?_map ..

theorem contains_counts : g.counts.contains a ↔ g.Has a := by
  rw [Has, KeyMap.contains, KeyMap.contains, get?_counts, Option.isSome_map, node?]

theorem get?_counts_of_has (here : g.Has a) : g.counts.get? a = some ((g.nodeAt a).reads, (g.nodeAt a).writes) := by
  obtain ⟨t, found⟩ := Option.isSome_iff_exists.1 here
  rw [get?_counts, nodeAt, node?, found]
  rfl

theorem get?_counts_update (name : String) (f : TableNode → TableNode) (a : String) :
    (g.update name f).counts.get? a =
      if a = name then some ((f (g.nodeAt a)).reads, (f (g.nodeAt a)).writes) else g.counts.get? a := by
  by_cases same : a = name
  · rw [get?_counts_of_has ((has_update ..).2 (.inl same)), nodeAt_update, if_pos same, if_pos same]
  · rw [get?_counts, get?_counts, node?, node?, update, KeyMap.get?_insertWith, if_neg same, if_neg same]

/-- A change of a table that leaves its counts. -/
theorem counts_update (here : g.Has name) {f : TableNode → TableNode}
    (kept : ∀ t, (f t).reads = t.reads ∧ (f t).writes = t.writes) : (g.update name f).counts = g.counts := by
  refine KeyMap.ext_get? fun a => ?_
  rw [get?_counts_update]
  split
  · next same =>
    subst same
    rw [(kept _).1, (kept _).2, get?_counts_of_has here]
  · rfl

theorem counts_mark (here : g.Has name) : (g.mark name).counts = g.counts :=
  counts_update here fun _ => ⟨rfl, rfl⟩

theorem counts_addEdge {source sink : String} (here : g.Has source) (there : g.Has sink) :
    (g.addEdge source sink).counts = g.counts := by
  unfold addEdge
  split
  · exact counts_mark here
  · have child : (g.update source (·.addChild sink)).counts = g.counts := counts_update here fun _ => ⟨rfl, rfl⟩
    have parent (h : Graph) (there : h.Has sink) : (h.update sink (·.addParent source)).counts = h.counts :=
      counts_update there fun _ => ⟨rfl, rfl⟩
    rw [parent _ ((has_update ..).2 (.inr there)), child]

section

variable (names : List String)

theorem get?_counts_copyTable (part : Graph) (name a : String) : (g.copyTable part name).counts.get? a =
    if a = name then (g.counts.get? a).or (part.counts.get? a) else part.counts.get? a := by
  unfold copyTable
  split
  · next t found =>
    rw [get?_counts_update]
    split
    · next same => simp [get?_counts, same, found, countedAs]
    · rfl
  · next missing =>
    split
    · next same => simp [get?_counts, same, missing]
    · rfl

/-- The named tables keep their counts. -/
theorem counts_nodesOnly : (g.nodesOnly names).counts = g.counts.filter names.contains := by
  have after (part : Graph) (a : String) : (names.foldl g.copyTable part).counts.get? a =
      if a ∈ names then (g.counts.get? a).or (part.counts.get? a) else part.counts.get? a := by
    induction names generalizing part with
    | nil => rfl
    | cons name rest ih =>
      rw [foldl_cons, ih, get?_counts_copyTable]
      by_cases first : a = name
      · subst first
        by_cases later : a ∈ rest
        · simp [later, ← Option.or_assoc]
        · simp [later]
      · simp [first]
  refine KeyMap.ext_get? fun a => ?_
  have none : empty.counts.get? a = none := rfl
  rw [nodesOnly, after, KeyMap.get?_filter, none, Option.or_none]
  by_cases named : a ∈ names <;> simp [named]

theorem has_nodesOnly : (g.nodesOnly names).Has a ↔ g.Has a ∧ a ∈ names := by
  rw [← contains_counts, ← contains_counts, counts_nodesOnly, KeyMap.contains, KeyMap.get?_filter, KeyMap.contains]
  by_cases named : a ∈ names <;> simp [named]

theorem feeds_copyTable (part : Graph) (name a b : String) : (g.copyTable part name).Feeds a b ↔ part.Feeds a b := by
  unfold copyTable
  split
  · exact feeds_update _ _ _ (neutral_countedAs _)
  · rfl

theorem not_feeds_nodesOnly (a b : String) : ¬ (g.nodesOnly names).Feeds a b := by
  refine List.foldlRecOn (motive := fun part : Graph => ¬ part.Feeds a b) _ _ (not_feeds_empty a b) ?_
  intro part none name _
  rwa [feeds_copyTable]

theorem sound_nodesOnly : (g.nodesOnly names).Sound := by
  refine List.foldlRecOn _ _ sound_empty ?_
  intro part sound name _
  unfold copyTable
  split
  · exact sound.update (neutral_countedAs _).toKeepsEdges name
  · exact sound

/-- The edges of a table are taken over one by one, and its mark after them. -/
theorem copyEdges_induction {P : Graph → Prop} {kept part : Graph} (start : P part)
    (edge : ∀ part child, P part → kept.Has child → P (part.addEdge name child)) (mark : ∀ part, P part → P (part.mark name)) :
    P (g.copyEdges kept part name) := by
  have linked := List.foldlRecOn (motive := P) ((g.childList name).filter kept.tables.contains)
    (fun part child => part.addEdge name child) start fun part same child member =>
      edge part child same (mem_filter.1 member).2
  unfold copyEdges
  dsimp only
  split
  · exact mark _ linked
  · exact linked

theorem Sound.copyEdges {part : Graph} (sound : part.Sound) (kept : Graph) (name : String) :
    (g.copyEdges kept part name).Sound :=
  copyEdges_induction sound (fun _ child sound _ => sound.addEdge name child) fun _ sound => sound.mark name

/-- A table that is kept takes over what it says about tables that are kept. -/
theorem feeds_copyEdges {kept : Graph} (part : Graph) (here : kept.Has name) (a b : String) :
    (g.copyEdges kept part name).Feeds a b ↔ (a = name ∧ kept.Has b ∧ g.Feeds a b) ∨ part.Feeds a b := by
  have edges : (((g.childList name).filter kept.tables.contains).foldl (fun part child => part.addEdge name child)
      part).Feeds a b ↔ (a = name ∧ kept.Has b ∧ b ∈ g.childList a) ∨ part.Feeds a b := by
    rw [foldl_iff (P := (·.Feeds a b)) fun child _ _ => feeds_addEdge name child a b]
    simp only [mem_filter]
    refine or_congr_left ⟨?_, ?_⟩
    · rintro ⟨_, ⟨edge, there⟩, rfl, rfl⟩
      exact ⟨rfl, there, edge⟩
    · rintro ⟨rfl, there, edge⟩
      exact ⟨b, ⟨edge, there⟩, rfl, rfl⟩
  unfold copyEdges
  dsimp only
  split
  · next marked =>
    rw [← addEdge_self, feeds_addEdge, edges]
    constructor
    · rintro (⟨rfl, rfl⟩ | ⟨rfl, there, edge⟩ | old)
      · exact .inl ⟨rfl, here, .inr ⟨rfl, marked⟩⟩
      · exact .inl ⟨rfl, there, .inl edge⟩
      · exact .inr old
    · rintro (⟨rfl, there, edge | ⟨rfl, -⟩⟩ | old)
      · exact .inr (.inl ⟨rfl, there, edge⟩)
      · exact .inl ⟨rfl, rfl⟩
      · exact .inr (.inr old)
  · next unmarked =>
    rw [edges]
    refine or_congr_left (and_congr_right ?_)
    rintro rfl
    exact and_congr_right fun _ => (or_iff_left fun mark => unmarked mark.2).symm

/-- The edges of a table change the counts of no table. -/
theorem counts_copyEdges {kept part : Graph} (same : part.counts = kept.counts) (here : kept.Has name) :
    (g.copyEdges kept part name).counts = kept.counts := by
  have has {part : Graph} (same : part.counts = kept.counts) {a : String} (there : kept.Has a) : part.Has a := by
    rwa [← contains_counts, same, contains_counts]
  refine copyEdges_induction (P := (·.counts = kept.counts)) same (fun part child same there => ?_) fun part same => ?_
  · rw [counts_addEdge (has same here) (has same there), same]
  · rw [counts_mark (has same here), same]

section

variable {names} {row : List String} (covers : ∀ a, a ∈ row ↔ (g.nodesOnly names).Has a)

include covers

theorem counts_partAlong : (g.partAlong names row).counts = g.counts.filter names.contains := by
  rw [← counts_nodesOnly]
  refine List.foldlRecOn (motive := fun part : Graph => part.counts = (g.nodesOnly names).counts) _ _ rfl ?_
  intro part same name member
  exact counts_copyEdges same ((covers name).1 member)

theorem feeds_partAlong (sound : g.Sound) (a b : String) :
    (g.partAlong names row).Feeds a b ↔ g.Feeds a b ∧ a ∈ names ∧ b ∈ names := by
  rw [partAlong, foldl_iff (P := (·.Feeds a b)) fun name member part =>
    feeds_copyEdges part ((covers name).1 member) a b, or_iff_left (not_feeds_nodesOnly names a b)]
  simp only [covers, has_nodesOnly]
  constructor
  · rintro ⟨_, ⟨-, start⟩, rfl, ⟨-, finish⟩, feeds⟩
    exact ⟨feeds, start, finish⟩
  · rintro ⟨feeds, start, finish⟩
    obtain ⟨here, there⟩ := sound.feeds_known feeds
    exact ⟨a, ⟨here, start⟩, rfl, ⟨there, finish⟩, feeds⟩

end

theorem sound_partAlong (row : List String) : (g.partAlong names row).Sound :=
  List.foldlRecOn _ _ (sound_nodesOnly names) fun _ sound name _ => sound.copyEdges _ name

theorem counts_subgraph : (g.subgraph names).counts = g.counts.filter names.contains :=
  counts_partAlong fun _ => mem_names

theorem feeds_subgraph (sound : g.Sound) (a b : String) :
    (g.subgraph names).Feeds a b ↔ g.Feeds a b ∧ a ∈ names ∧ b ∈ names := feeds_partAlong (fun _ => mem_names) sound a b

theorem sound_subgraph : (g.subgraph names).Sound := sound_partAlong names _

end

/-! ### Any operations -/

/-- A step in the life of a graph: it is added to, or a part of it takes its place. -/
inductive Operation where
  | add (c : Call)
  | keep (names : List String)

def operate (g : Graph) : Operation → Graph
  | .add c => g.act c
  | .keep names => g.subgraph names

/-- The graph that a row of operations leads to. -/
def made (ops : List Operation) : Graph := ops.foldl operate empty

/-- What has been said, after an operation, about which table is written from which. -/
def tell (told : String → String → Prop) : Operation → String → String → Prop
  | .add c => fun a b => told a b ∨ c.Links a b
  | .keep names => fun a b => told a b ∧ a ∈ names ∧ b ∈ names

/-- Whether operations said that `b` is written from `a`, and kept both since. -/
def Told (ops : List Operation) : String → String → Prop := ops.foldl tell fun _ _ => False

theorem Sound.operate (sound : g.Sound) (op : Operation) : (g.operate op).Sound := by
  cases op with
  | add c => exact sound.act c
  | keep names => exact sound_subgraph names

theorem sound_made (ops : List Operation) : (made ops).Sound :=
  List.foldlRecOn _ _ sound_empty fun _ sound op _ => sound.operate op

/-- What operations said is what the graph says. -/
theorem feeds_made (ops : List Operation) (a b : String) : (made ops).Feeds a b ↔ Told ops a b := by
  have after {told : String → String → Prop} {g : Graph} (sound : g.Sound) (same : ∀ a b, g.Feeds a b ↔ told a b) :
      (ops.foldl Graph.operate g).Feeds a b ↔ ops.foldl tell told a b := by
    induction ops generalizing told g with
    | nil => exact same a b
    | cons op ops ih =>
      refine ih (sound.operate op) fun a b => ?_
      cases op with
      | add c => exact (feeds_act a b c).trans (or_comm.trans (or_congr_left (same a b)))
      | keep names => exact (feeds_subgraph names sound a b).trans (and_congr_left' (same a b))
  exact after sound_empty fun a b => iff_of_false (not_feeds_empty a b) id

end Graph
end TableLineage
