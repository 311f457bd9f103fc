import Mathlib.Data.List.Sort
import TableLineage.Graph.Order
import TableLineage.Proofs.Graph.Cycle
import TableLineage.Proofs.Graph.Reach

/-! Orders of graphs without cycles. Both orders are worked out from parent to parent. Each table that waits for
the one at hand can be reached from it, so without a cycle none of them is met again, and as they are different
tables the number of tables bounds their number. -/
namespace TableLineage

open List

namespace KeyMap

variable {β : Type}

theorem get?_insert (k : String) (v : β) (m : KeyMap β) (k' : String) :
    (m.insert k v).get? k' = if k' = k then some v else m.get? k' := by
  rw [insert, get?_insertWith]
  cases m.get? k <;> rfl

end KeyMap

namespace Graph

variable {g : Graph} {row trail : List String} {name : String} {before levels : KeyMap Nat} {above : KeyMap Nat × Nat}
  {p : Placing} {k n : Nat}

theorem sorted_names : g.names.Pairwise (· < ·) := KeyMap.sorted_keys _

theorem nodup_names : g.names.Nodup := sorted_names.imp ne_of_lt

/-- No way leads from a table back to it. -/
def Acyclic (g : Graph) : Prop := ∀ a, ¬ Relation.TransGen g.Edge a a

theorem acyclic_of_no_cycle (sound : g.Sound) (none : g.cycle? = none) : g.Acyclic := by
  have exact := exact_visitAll sound.closed fun a edge => sound.loopless a (edge_iff.1 edge)
  have passed : ∃ after, g.visitAll = .ok after := by
    cases found : g.visitAll with
    | error c => simp [cycle?, found] at none
    | ok after => exact ⟨after, rfl⟩
  obtain ⟨after, passed⟩ := passed
  rw [passed] at exact
  cases exact with
  | passed ends =>
    intro a round
    obtain ⟨b, edge, -⟩ := Relation.TransGen.head'_iff.1 round
    exact (ends a edge.has).not_round round

theorem contains_parents (sound : g.Sound) {a b : String} : (g.parents b).contains a ↔ g.Edge a b := by
  rw [parents, Names.contains_ofList, sound.mem_parentList]

/-- A table that others wait for: from it, each of them can be reached. -/
structure Pending (g : Graph) (trail : List String) (name : String) : Prop where
  once : trail.Nodup
  known : ∀ a ∈ trail, g.Has a
  here : g.Has name
  leads : ∀ a ∈ trail, Relation.TransGen g.Edge name a

namespace Pending

theorem first (here : g.Has name) : Pending g [] name :=
  ⟨nodup_nil, fun _ member => absurd member not_mem_nil, here, fun _ member => absurd member not_mem_nil⟩

variable (acyclic : g.Acyclic) (pending : Pending g trail name)

include acyclic pending

theorem fresh : name ∉ trail := fun member => acyclic name (pending.leads name member)

/-- So few tables wait that there is one more. -/
theorem length_lt : trail.length < g.nodeCount := by
  rw [← length_names]
  refine Cycle.length_lt (nodup_cons.2 ⟨pending.fresh acyclic, pending.once⟩) ?_
  exact forall_mem_cons.2 ⟨mem_names.2 pending.here, fun a member => mem_names.2 (pending.known a member)⟩

/-- The table waits for its parents in turn. -/
theorem parent {above : String} (edge : g.Edge above name) : Pending g (name :: trail) above where
  once := nodup_cons.2 ⟨pending.fresh acyclic, pending.once⟩
  known := forall_mem_cons.2 ⟨pending.here, pending.known⟩
  here := edge.has
  leads := forall_mem_cons.2 ⟨.single edge, fun a member => .head edge (pending.leads a member)⟩

end Pending

/-! ### Every table after its parents -/

/-- Tables in order, while those of `trail` wait. -/
structure Placing.Ordered (g : Graph) (trail : List String) (p : Placing) : Prop where
  visited : ∀ a, p.visited.contains a ↔ a ∈ p.order ∨ a ∈ trail
  once : p.order.Nodup
  waiting : ∀ a ∈ trail, a ∉ p.order
  known : ∀ a ∈ p.order, g.Has a
  /-- With a table, all its parents are placed. -/
  complete : ∀ b ∈ p.order, ∀ a, g.Edge a b → a ∈ p.order
  after : p.order.Pairwise fun a b => ¬ g.Edge b a

/-- Placing tables keeps the order and ends with all of them placed. -/
structure Placing.Placed (g : Graph) (trail : List String) (before : Placing) (names : List String) (p : Placing) :
    Prop where
  ordered : p.Ordered g trail
  kept : ∀ a ∈ before.order, a ∈ p.order
  entered : ∀ a ∈ names, a ∈ p.order

namespace Placing

/-- Tables in turn, if placing each of them does as it should. -/
theorem placed_foldl {step : Placing → String → Placing} {names : List String}
    (one : ∀ name ∈ names, ∀ p : Placing, p.Ordered g trail → Placed g trail p [name] (step p name))
    (ordered : p.Ordered g trail) : Placed g trail p names (names.foldl step p) := by
  induction names generalizing p with
  | nil => exact ⟨ordered, fun _ => id, fun _ member => absurd member not_mem_nil⟩
  | cons name rest ih =>
    obtain ⟨first, others⟩ := forall_mem_cons.1 one
    have here := first p ordered
    have later := ih others here.ordered
    refine ⟨later.ordered, fun a member => later.kept a (here.kept a member), ?_⟩
    exact forall_mem_cons.2 ⟨later.kept name (here.entered name mem_cons_self), later.entered⟩

/-- A table begins to wait. -/
theorem Ordered.wait {trail : List String} {p : Placing} (ordered : p.Ordered g trail) {name : String}
    (unplaced : name ∉ p.order) : Ordered g (name :: trail) ⟨p.visited.insert name, p.order⟩ where
  visited a := by
    rw [Names.contains_insert, ordered.visited, mem_cons, or_left_comm]
  once := ordered.once
  waiting := forall_mem_cons.2 ⟨unplaced, ordered.waiting⟩
  known := ordered.known
  complete := ordered.complete
  after := ordered.after

/-- A table whose parents are placed comes to its place. -/
theorem Ordered.finish (ordered : p.Ordered g (name :: trail)) (fresh : name ∉ trail) (here : g.Has name)
    (parents : ∀ a, g.Edge a name → a ∈ p.order) : Ordered g trail ⟨p.visited, p.order ++ [name]⟩ := by
  obtain ⟨unplaced, waiting⟩ := forall_mem_cons.1 ordered.waiting
  constructor
  · intro a
    rw [ordered.visited, mem_cons, mem_append, mem_singleton, or_assoc]
  · exact nodup_append_comm.1 (nodup_cons.2 ⟨unplaced, ordered.once⟩)
  · intro a member placed
    obtain old | last := mem_append.1 placed
    · exact waiting a member old
    · exact fresh (mem_singleton.1 last ▸ member)
  · intro a placed
    obtain old | last := mem_append.1 placed
    · exact ordered.known a old
    · exact mem_singleton.1 last ▸ here
  · intro b placed a edge
    obtain old | last := mem_append.1 placed
    · exact mem_append_left _ (ordered.complete b old a edge)
    · exact mem_append_left _ (parents a (mem_singleton.1 last ▸ edge))
  · refine pairwise_append.2 ⟨ordered.after, pairwise_singleton _ _, ?_⟩
    intro a old b last edge
    obtain rfl := mem_singleton.1 last
    exact unplaced (ordered.complete a old b edge)

end Placing

/-- All tables, each once and after its parents. -/
structure Topological (g : Graph) (order : List String) : Prop where
  all : order.Perm g.names
  after : ∀ a b, (g.parents b).contains a → order.idxOf a < order.idxOf b

section

variable (sound : g.Sound) (acyclic : g.Acyclic)

include sound acyclic

theorem placed_place {fuel : Nat} (pending : Pending g trail name) (deep : g.nodeCount ≤ trail.length + fuel)
    (ordered : p.Ordered g trail) : Placing.Placed g trail p [name] (g.place fuel p name) := by
  induction fuel generalizing trail name p with
  | zero =>
    have short := pending.length_lt acyclic
    omega
  | succ fuel ih =>
    have fresh := pending.fresh acyclic
    rw [place]
    split
    · next old =>
      have placed := ((ordered.visited name).1 old).resolve_right fresh
      exact ⟨ordered, fun _ => id, by simpa using placed⟩
    · next new =>
      have unplaced : name ∉ p.order := fun placed => new ((ordered.visited name).2 (.inl placed))
      have edges (a : String) : a ∈ (g.parents name).toList ↔ g.Edge a name :=
        KeyMap.mem_keys.trans (contains_parents sound)
      have deeper : g.nodeCount ≤ (name :: trail).length + fuel := by
        rw [length_cons]
        omega
      have above := Placing.placed_foldl (fun a member p ordered =>
        ih (pending.parent acyclic ((edges a).1 member)) deeper ordered) (ordered.wait unplaced)
      refine ⟨above.ordered.finish fresh pending.here fun a edge => above.entered a ((edges a).2 edge), ?_, ?_⟩
      · exact fun a old => mem_append_left _ (above.kept a old)
      · simp

theorem topological_placed : Topological g g.placed := by
  have start : Placing.Ordered g [] ⟨.empty, []⟩ := by
    refine ⟨fun a => iff_of_false (Names.not_contains_empty a) (by simp), nodup_nil, ?_, ?_, ?_, .nil⟩
    all_goals exact fun _ member => absurd member not_mem_nil
  have done : Placing.Placed g [] ⟨.empty, []⟩ g.names (g.names.foldl (g.place g.nodeCount) ⟨.empty, []⟩) :=
    Placing.placed_foldl (fun name member p ordered =>
      placed_place sound acyclic (.first (mem_names.1 member)) (by simp) ordered) start
  have ordered : Placing.Ordered g [] ⟨_, g.placed⟩ := done.ordered
  have members (a : String) : a ∈ g.placed ↔ a ∈ g.names :=
    ⟨fun placed => mem_names.2 (ordered.known a placed), done.entered a⟩
  constructor
  · exact (perm_ext_iff_of_nodup ordered.once nodup_names).2 members
  · intro a b parent
    have edge := (contains_parents sound).1 parent
    have there : b ∈ g.placed := (members b).2 (mem_names.2 (sound.closed a b edge))
    have here : a ∈ g.placed := (members a).2 (mem_names.2 edge.has)
    -- Otherwise the table would stand before one of its parents.
    by_contra late
    obtain same | before := Nat.eq_or_lt_of_le (Nat.not_lt.1 late)
    · obtain rfl := (idxOf_inj there).1 same
      exact sound.loopless b (edge_iff.1 edge)
    · have wrong := pairwise_iff_getElem.1 ordered.after _ _ (idxOf_lt_length_of_mem there)
        (idxOf_lt_length_of_mem here) before
      rw [getElem_idxOf, getElem_idxOf] at wrong
      exact wrong edge

end

/-! ### Levels -/

/-- The longest way to a table has so many edges. -/
structure Longest (edge : String → String → Prop) (n : Nat) (a : String) : Prop where
  way : ∃ start, Way edge n start a
  most : ∀ m start, Way edge m start a → m ≤ n

theorem Longest.unique {edge : String → String → Prop} {m : Nat} {a : String} (first : Longest edge m a)
    (second : Longest edge n a) : m = n := by
  obtain ⟨start, way⟩ := first.way
  obtain ⟨start', way'⟩ := second.way
  exact Nat.le_antisymm (second.most m start way) (first.most n start' way')

/-- The levels that are known are right. -/
def Right (g : Graph) (known : KeyMap Nat) : Prop := ∀ a l, known.get? a = some l → g.Has a ∧ Longest g.Edge l a

/-- All levels are known, and right. -/
structure Leveled (g : Graph) (levels : KeyMap Nat) : Prop where
  right : Right g levels
  all : ∀ a, g.Has a → levels.contains a

namespace Leveled

variable (leveled : Leveled g levels)

include leveled

theorem exists_level {a : String} (here : g.Has a) : ∃ l, levels.get? a = some l :=
  Option.isSome_iff_exists.1 (leveled.all a here)

theorem get?_iff {a : String} {l : Nat} : levels.get? a = some l ↔ g.Has a ∧ Longest g.Edge l a := by
  refine ⟨leveled.right a l, ?_⟩
  rintro ⟨here, longest⟩
  obtain ⟨level, found⟩ := leveled.exists_level here
  exact found.trans (congrArg some ((leveled.right a level found).2.unique longest))

/-- There is one way to give tables their levels. -/
theorem unique {levels' : KeyMap Nat} (other : Leveled g levels') : levels = levels' := by
  refine KeyMap.ext_get? fun a => Option.ext fun l => ?_
  rw [leveled.get?_iff, other.get?_iff]

end Leveled

/-- A level has been raised above tables, and is not higher than that takes. -/
structure Raised (g : Graph) (before : KeyMap Nat) (names : List String) (above : KeyMap Nat × Nat) : Prop where
  right : Right g above.1
  grown : ∀ a, before.contains a → above.1.contains a
  higher : ∀ a ∈ names, ∀ n start, Way g.Edge n start a → n < above.2
  least : above.2 = 0 ∨ ∃ a ∈ names, ∃ n start, Way g.Edge n start a ∧ above.2 = n + 1

/-- The level of a table has been found. -/
structure Found (g : Graph) (before : KeyMap Nat) (name : String) (found : KeyMap Nat × Nat) : Prop where
  right : Right g found.1
  grown : ∀ a, before.contains a → found.1.contains a
  entered : found.1.contains name
  longest : Longest g.Edge found.2 name

theorem Raised.raise {before : KeyMap Nat} {names : List String} {above : KeyMap Nat × Nat}
    (raised : Raised g before names above) {level : KeyMap Nat → String → KeyMap Nat × Nat} {name : String}
    (found : Found g above.1 name (level above.1 name)) :
    Raised g before (names ++ [name]) (raise level above name) := by
  constructor
  · exact found.right
  · exact fun a old => found.grown a (raised.grown a old)
  · intro a member n start way
    obtain old | last := mem_append.1 member
    · exact Nat.lt_of_lt_of_le (raised.higher a old n start way) (Nat.le_max_left ..)
    · obtain rfl := mem_singleton.1 last
      exact Nat.lt_of_le_of_lt (found.longest.most n start way) (Nat.le_max_right ..)
  · by_cases lower : (level above.1 name).2 < above.2
    · rw [Graph.raise, Nat.max_eq_left lower]
      obtain zero | ⟨a, member, way⟩ := raised.least
      · exact .inl zero
      · exact .inr ⟨a, mem_append_left _ member, way⟩
    · rw [Graph.raise, Nat.max_eq_right (by omega)]
      obtain ⟨start, way⟩ := found.longest.way
      exact .inr ⟨name, by simp, _, start, way, rfl⟩

/-- Tables in turn, if the level of each of them is found as it should be. -/
theorem Raised.foldl {level : KeyMap Nat → String → KeyMap Nat × Nat} {done names : List String}
    (one : ∀ name ∈ names, ∀ known, Right g known → Found g known name (level known name))
    (raised : Raised g before done above) :
    Raised g before (done ++ names) (names.foldl (Graph.raise level) above) := by
  induction names generalizing done above with
  | nil => simpa using raised
  | cons name rest ih =>
    obtain ⟨first, others⟩ := forall_mem_cons.1 one
    simpa using ih others (raised.raise (first above.1 raised.right))

/-- A level that is raised above all parents of a table is its own. -/
theorem Raised.longest (sound : g.Sound) (raised : Raised g before (g.parentList name) above) :
    Longest g.Edge above.2 name := by
  constructor
  · obtain zero | ⟨a, member, n, start, way, same⟩ := raised.least
    · exact ⟨name, zero ▸ .stay name⟩
    · exact ⟨start, same ▸ way.go (sound.mem_parentList.1 member)⟩
  · intro m start way
    cases way with
    | stay => exact Nat.zero_le _
    | @go n _ a _ way link => exact raised.higher a (sound.mem_parentList.2 link) n start way

theorem Raised.enter (sound : g.Sound) (raised : Raised g before (g.parentList name) above) (here : g.Has name) :
    Found g before name (above.1.insert name above.2, above.2) := by
  have longest := raised.longest sound
  constructor
  · intro a l found
    rw [KeyMap.get?_insert] at found
    split at found
    · next same =>
      cases found
      exact ⟨same ▸ here, same ▸ longest⟩
    · exact raised.right a l found
  · intro a old
    have kept := raised.grown a old
    rw [KeyMap.contains] at kept ⊢
    rw [KeyMap.get?_insert]
    split
    · rfl
    · exact kept
  · simp [KeyMap.contains, KeyMap.get?_insert]
  · exact longest

section

variable (sound : g.Sound) (acyclic : g.Acyclic)

include sound acyclic

theorem found_levelOf {fuel : Nat} (pending : Pending g trail name) (deep : g.nodeCount ≤ trail.length + fuel)
    {known : KeyMap Nat} (right : Right g known) : Found g known name (g.levelOf fuel known name) := by
  induction fuel generalizing trail name known with
  | zero =>
    have short := pending.length_lt acyclic
    omega
  | succ fuel ih =>
    rw [levelOf]
    split
    · next level old => exact ⟨right, fun _ => id, by simp [KeyMap.contains, old], (right name level old).2⟩
    · have start : Raised g known [] (known, 0) :=
        ⟨right, fun _ => id, fun _ member => absurd member not_mem_nil, .inl rfl⟩
      have parents : ∀ a ∈ g.parentList name, ∀ known, Right g known → Found g known a (g.levelOf fuel known a) := by
        intro a member known right
        have deeper : g.nodeCount ≤ (name :: trail).length + fuel := by
          rw [length_cons]
          omega
        exact ih (pending.parent acyclic (sound.mem_parentList.1 member)) deeper right
      exact (start.foldl parents).enter sound pending.here

/-- Tables in turn have their levels found, and keep them. -/
theorem leveled_levelsAlong (covers : ∀ a, a ∈ row ↔ g.Has a) : Leveled g (g.levelsAlong row) := by
  have after (names : List String) (members : ∀ a ∈ names, g.Has a) (known : KeyMap Nat) (right : Right g known) :
      Right g (names.foldl (fun known name => (g.levelOf g.nodeCount known name).1) known) ∧
        ∀ a, a ∈ names ∨ known.contains a →
          (names.foldl (fun known name => (g.levelOf g.nodeCount known name).1) known).contains a := by
    induction names generalizing known with
    | nil => exact ⟨right, fun a inside => inside.resolve_left not_mem_nil⟩
    | cons name rest ih =>
      obtain ⟨here, others⟩ := forall_mem_cons.1 members
      have found : Found g known name (g.levelOf g.nodeCount known name) :=
        found_levelOf sound acyclic (.first here) (by simp) right
      obtain ⟨right, all⟩ := ih others _ found.right
      refine ⟨right, fun a inside => all a ?_⟩
      rw [mem_cons, or_assoc] at inside
      obtain rfl | later | old := inside
      · exact .inr found.entered
      · exact .inl later
      · exact .inr (found.grown a old)
  obtain ⟨right, all⟩ := after row (fun a member => (covers a).1 member) .empty fun _ _ found => absurd found (by simp)
  exact ⟨right, fun a here => all a (.inl ((covers a).2 here))⟩

end

/-! ### The tables of each level -/

/-- Whether a table stands in the level of a number. -/
def StandsAt (levels : List (List String)) (k : Nat) (a : String) : Prop := ∃ row, levels[k]? = some row ∧ a ∈ row

theorem lt_foldl_max (xs : List Nat) (x : Nat) : k < xs.foldl max x ↔ k < x ∨ ∃ y ∈ xs, k < y := by
  induction xs generalizing x with
  | nil => simp
  | cons y ys ih => rw [foldl_cons, ih, lt_max_iff, exists_mem_cons_iff, or_assoc]

theorem lt_height : k < height levels ↔ ∃ a l, levels.get? a = some l ∧ k ≤ l := by
  rw [height, lt_foldl_max]
  simp only [Nat.not_lt_zero, false_or, mem_map, ← KeyMap.mem_entries]
  constructor
  · rintro ⟨_, ⟨⟨a, l⟩, member, rfl⟩, less⟩
    exact ⟨a, l, member, Nat.le_of_lt_succ less⟩
  · rintro ⟨a, l, member, less⟩
    exact ⟨l + 1, ⟨(a, l), member, rfl⟩, Nat.lt_succ_of_le less⟩

section

theorem getElem?_strata :
    (strata levels)[k]? = some row ↔ k < height levels ∧ (levels.filterEntries fun _ l => l = k).keys = row := by
  rw [strata, getElem?_map]
  by_cases less : k < height levels <;> simp [less]

theorem mem_level {a : String} : a ∈ (levels.filterEntries fun _ l => l = k).keys ↔ levels.get? a = some k := by
  rw [KeyMap.mem_keys_filterEntries]
  simp

theorem standsAt_strata {a : String} : StandsAt (strata levels) k a ↔ levels.get? a = some k := by
  unfold StandsAt
  simp only [getElem?_strata]
  constructor
  · rintro ⟨_, ⟨-, rfl⟩, member⟩
    exact mem_level.1 member
  · intro found
    exact ⟨_, ⟨lt_height.2 ⟨a, k, found, Nat.le_refl k⟩, rfl⟩, mem_level.2 found⟩

end

/-- The tables level by level. -/
structure Layered (g : Graph) (levels : List (List String)) : Prop where
  /-- Each table stands in one level, once. -/
  all : levels.flatten.Perm g.names
  sorted : ∀ row ∈ levels, row.Pairwise (· < ·)
  longest : ∀ k a, StandsAt levels k a ↔ g.Has a ∧ Longest g.Edge k a
  filled : ∀ row ∈ levels, row ≠ []
  roots : levels.headD [] = g.roots
  rising : ∀ a b, g.Edge a b → ∃ i j, i < j ∧ StandsAt levels i a ∧ StandsAt levels j b

theorem Way.cut {edge : String → String → Prop} {m : Nat} {a c : String} (way : Way edge (m + n) a c) :
    ∃ b, Way edge m a b ∧ Way edge n b c := by
  induction n generalizing c with
  | zero => exact ⟨c, way, .stay c⟩
  | succ n ih =>
    cases way with
    | go way link =>
      obtain ⟨b, first, second⟩ := ih way
      exact ⟨b, first, second.go link⟩

theorem Way.has_start {a b : String} (way : Way g.Edge n a b) (last : g.Has b) : g.Has a := by
  induction way with
  | stay => exact last
  | go _ link ih => exact ih link.has

/-- Below a level there are tables at all lower levels. -/
theorem Longest.cut {k l : Nat} {a : String} (longest : Longest g.Edge l a) (here : g.Has a) (less : k ≤ l) :
    ∃ b, g.Has b ∧ Longest g.Edge k b := by
  obtain ⟨n, rfl⟩ := Nat.exists_eq_add_of_le less
  obtain ⟨start, way⟩ := longest.way
  obtain ⟨b, first, second⟩ := way.cut
  refine ⟨b, second.has_start here, ⟨start, first⟩, fun m start' other => ?_⟩
  have := longest.most (m + n) start' (other.append second)
  omega

/-- A table at level zero has no parents. -/
theorem longest_zero_iff (sound : g.Sound) {a : String} : Longest g.Edge 0 a ↔ g.parentList a = [] := by
  rw [eq_nil_iff_forall_not_mem]
  constructor
  · intro longest b member
    have := longest.most 1 b (.go (.stay b) (sound.mem_parentList.1 member))
    omega
  · intro none
    refine ⟨⟨a, .stay a⟩, fun m start way => ?_⟩
    cases way with
    | stay => exact Nat.le_refl 0
    | @go _ _ b _ _ link => exact absurd (sound.mem_parentList.2 link) (none b)

namespace Leveled

variable (leveled : Leveled g levels)

include leveled

theorem standsAt_iff (k : Nat) (a : String) : StandsAt (strata levels) k a ↔ g.Has a ∧ Longest g.Edge k a :=
  standsAt_strata.trans leveled.get?_iff

omit leveled in
theorem exists_row (member : row ∈ strata levels) :
    ∃ k < height levels, (levels.filterEntries fun _ l => l = k).keys = row := by
  obtain ⟨k, less, same⟩ := mem_map.1 member
  exact ⟨k, mem_range.1 less, same⟩

theorem perm_flatten : (strata levels).flatten.Perm g.names := by
  have once : (strata levels).flatten.Nodup := by
    refine nodup_flatten.2 ⟨fun row member => ?_, ?_⟩
    · obtain ⟨k, -, rfl⟩ := exists_row member
      exact (KeyMap.sorted_keys _).imp ne_of_lt
    · refine pairwise_map.2 (nodup_range.imp fun {i j} different a first second => different ?_)
      exact Option.some.inj ((mem_level.1 first).symm.trans (mem_level.1 second))
  refine (perm_ext_iff_of_nodup once nodup_names).2 fun a => ?_
  rw [mem_names, mem_flatten]
  constructor
  · rintro ⟨row, member, inside⟩
    obtain ⟨k, -, rfl⟩ := exists_row member
    exact (leveled.right a k (mem_level.1 inside)).1
  · intro here
    obtain ⟨l, found⟩ := leveled.exists_level here
    obtain ⟨row, place, inside⟩ := standsAt_strata.2 found
    exact ⟨row, mem_of_getElem? place, inside⟩

theorem layered (sound : g.Sound) : Layered g (strata levels) := by
  have sorted : ∀ row ∈ strata levels, row.Pairwise (· < ·) := by
    intro row member
    obtain ⟨k, -, rfl⟩ := exists_row member
    exact KeyMap.sorted_keys _
  refine ⟨leveled.perm_flatten, sorted, leveled.standsAt_iff, ?_, ?_, ?_⟩
  · intro row member none
    obtain ⟨k, less, rfl⟩ := exists_row member
    obtain ⟨a, l, found, below⟩ := lt_height.1 less
    obtain ⟨here, longest⟩ := leveled.right a l found
    obtain ⟨b, there, level⟩ := longest.cut here below
    have inside := mem_level.2 (leveled.get?_iff.2 ⟨there, level⟩)
    rw [none] at inside
    cases inside
  · have first (a : String) : a ∈ (strata levels).headD [] ↔ StandsAt (strata levels) 0 a := by
      unfold StandsAt
      cases strata levels <;> simp
    have upper : ((strata levels).headD []).Pairwise (· < ·) := by
      cases split : strata levels with
      | nil => exact .nil
      | cons row rest => exact sorted row (by simp [split])
    refine upper.eq_of_mem_iff (sorted_names.filter _) fun a => ?_
    rw [first, leveled.standsAt_iff, longest_zero_iff sound, roots, mem_filter, mem_names, List.isEmpty_iff]
  · intro a b edge
    obtain ⟨i, lower⟩ := leveled.exists_level edge.has
    obtain ⟨j, upper⟩ := leveled.exists_level (sound.closed a b edge)
    refine ⟨i, j, ?_, standsAt_strata.2 lower, standsAt_strata.2 upper⟩
    obtain ⟨start, way⟩ := (leveled.right a i lower).2.way
    exact (leveled.right b j upper).2.most (i + 1) start (way.go edge)

end Leveled

/-- Either a cycle is found, and both orders fail with it, or there is none. Then one of them is a row of all tables,
each once and after its parents, and the other has each table at the level that the longest way to it tells, whichever
table is looked at first. -/
theorem orders_or_cycle (ops : List Operation) :
    (∃ c, (made ops).cycle? = some c ∧ (made ops).order = .error c ∧ (made ops).levels = .error c) ∨
      ((made ops).cycle? = none ∧ ∃ order levels, (made ops).order = .ok order ∧ (made ops).levels = .ok levels ∧
        Topological (made ops) order ∧ Layered (made ops) levels ∧
        ∀ row, row.Perm (made ops).names → strata ((made ops).levelsAlong row) = levels) := by
  have sound := sound_made ops
  cases found : (made ops).cycle? with
  | some c =>
    refine .inl ⟨c, rfl, ?_, ?_⟩
    · simp only [order, found]
    · simp only [levels, found]
  | none =>
    have acyclic := acyclic_of_no_cycle sound found
    have leveled : Leveled (made ops) (made ops).levelMap := leveled_levelsAlong sound acyclic fun _ => mem_names
    refine .inr ⟨rfl, (made ops).placed, strata (made ops).levelMap, ?_, ?_, topological_placed sound acyclic,
      leveled.layered sound, fun row same => ?_⟩
    · simp only [order, found]
    · simp only [levels, found]
    · have other := leveled_levelsAlong sound acyclic fun a => same.mem_iff.trans mem_names
      rw [other.unique leveled]

end Graph
end TableLineage
