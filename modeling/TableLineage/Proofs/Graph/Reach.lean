import Mathlib.Data.List.Perm.Subperm
import Mathlib.Data.Nat.Find
import TableLineage.Graph.Reach
import TableLineage.Proofs.Graph.Built
import TableLineage.Proofs.Store.Order

/-! Reaching tables is by distance. After so many rounds a search has seen the tables that are at most so many
edges away, and stands at those that are just so far. A table at some distance has tables at all lesser
distances before it, so no distance is as great as the number of tables, and a search that takes this number
as its limit misses nothing. -/
namespace TableLineage.Graph

open List

/-- A way of so many edges. -/
inductive Way (edge : String → String → Prop) : Nat → String → String → Prop
  | stay (a : String) : Way edge 0 a a
  | go {n : Nat} {a b c : String} (way : Way edge n a b) (link : edge b c) : Way edge (n + 1) a c

/-- The shortest way has so many edges. -/
structure Distance (edge : String → String → Prop) (n : Nat) (a b : String) : Prop where
  way : Way edge n a b
  shortest : ∀ m, Way edge m a b → n ≤ m

variable {edge : String → String → Prop} {m n : Nat} {a b c : String}

namespace Way

theorem append (first : Way edge m a b) (second : Way edge n b c) : Way edge (m + n) a c := by
  induction second with
  | stay => exact first
  | go _ link ih => exact .go (ih first) link

theorem swap (way : Way edge n a b) : Way (fun x y => edge y x) n b a := by
  induction way with
  | stay => exact .stay _
  | @go n _ _ _ _ link ih =>
    have first : Way (fun x y => edge y x) 1 _ _ := .go (.stay _) link
    exact Nat.add_comm 1 n ▸ first.append ih

theorem exists_distance (way : Way edge m a b) : ∃ n ≤ m, Distance edge n a b := by
  classical
  have some : ∃ n, Way edge n a b := ⟨m, way⟩
  exact ⟨Nat.find some, Nat.find_min' some way, Nat.find_spec some, fun _ => Nat.find_min' some⟩

end Way

namespace Distance

theorem unique (first : Distance edge m a b) (second : Distance edge n a b) : m = n :=
  Nat.le_antisymm (first.shortest n second.way) (second.shortest m first.way)

theorem swap (far : Distance edge n a b) : Distance (fun x y => edge y x) n b a :=
  ⟨far.way.swap, fun m way => far.shortest m way.swap⟩

theorem here (a : String) : Distance edge 0 a a := ⟨.stay a, fun _ _ => Nat.zero_le _⟩

theorem eq_of_zero (far : Distance edge 0 a b) : a = b := by
  cases far.way
  rfl

theorem ne (far : Distance edge n a b) (some : 0 < n) : a ≠ b := by
  rintro rfl
  exact absurd (far.unique (here a)) (Nat.ne_of_gt some)

/-- On a shortest way, each table is as far as the way has come. -/
theorem before (far : Distance edge (n + 1) a b) : ∃ c, Distance edge n a c ∧ edge c b := by
  obtain ⟨way, shortest⟩ := far
  cases way with
  | @go _ _ c _ way link =>
    refine ⟨c, ⟨way, fun m other => ?_⟩, link⟩
    exact Nat.le_of_succ_le_succ (shortest (m + 1) (other.go link))

/-- What lies behind an edge is one further, unless it is nearer. -/
theorem after (far : Distance edge n a b) (link : edge b c) (new : ¬ ∃ m ≤ n, Distance edge m a c) :
    Distance edge (n + 1) a c := by
  refine ⟨far.way.go link, fun m way => ?_⟩
  obtain ⟨k, less, near⟩ := way.exists_distance
  by_contra short
  exact new ⟨k, by omega, near⟩

/-- The tables at lesser distances are as many as the distance. -/
theorem lt_of_known {names : List String} (known : ∀ x y, edge x y → x ∈ names) (far : Distance edge n a b)
    (last : b ∈ names) : n < names.length := by
  have before : ∃ row : List String, row.Nodup ∧ row.length = n + 1 ∧
      ∀ x ∈ row, x ∈ names ∧ ∃ m ≤ n, Distance edge m a x := by
    induction n generalizing b with
    | zero => exact ⟨[b], by simp, rfl, by simpa using ⟨last, far⟩⟩
    | succ n ih =>
      obtain ⟨c, near, link⟩ := far.before
      obtain ⟨row, once, length, all⟩ := ih near (known c b link)
      have fresh : b ∉ row := by
        intro inside
        obtain ⟨m, less, nearer⟩ := (all b inside).2
        have := nearer.unique far
        omega
      refine ⟨b :: row, nodup_cons.2 ⟨fresh, once⟩, by simp [length], ?_⟩
      refine forall_mem_cons.2 ⟨⟨last, n + 1, Nat.le_refl _, far⟩, fun x inside => ?_⟩
      obtain ⟨there, m, less, nearer⟩ := all x inside
      exact ⟨there, m, by omega, nearer⟩
  obtain ⟨row, once, length, all⟩ := before
  have fits := (List.Nodup.subperm once fun x inside => (all x inside).1).length_le
  omega

end Distance

/-! ### One round -/

/-- What a round has met is what it saw for the first time. -/
structure Front.Fresh (seen : Names) (f : Front) : Prop where
  once : f.met.Nodup
  new : ∀ a ∈ f.met, ¬ seen.contains a
  all : ∀ a, f.seen.contains a ↔ a ∈ f.met ∨ seen.contains a

namespace Front

theorem contains_meet (f : Front) (name a : String) :
    (f.meet name).seen.contains a ↔ a = name ∨ f.seen.contains a := by
  unfold meet
  split
  · next old =>
    refine ⟨.inr, ?_⟩
    rintro (rfl | inside)
    · exact old
    · exact inside
  · exact Names.contains_insert name f.seen a

theorem contains_foldl_meet (names : List String) (f : Front) (a : String) :
    (names.foldl meet f).seen.contains a ↔ a ∈ names ∨ f.seen.contains a := by
  induction names generalizing f with
  | nil => simp
  | cons name rest ih => rw [foldl_cons, ih, contains_meet, mem_cons, or_left_comm, or_assoc]

theorem Fresh.meet {seen : Names} {f : Front} (fresh : f.Fresh seen) (name : String) : (f.meet name).Fresh seen := by
  unfold Front.meet
  split
  · exact fresh
  · next unseen =>
    have outside := not_or.1 (mt (fresh.all name).2 unseen)
    constructor
    · exact nodup_append_comm.1 (nodup_cons.2 ⟨outside.1, fresh.once⟩)
    · intro a member
      obtain old | last := mem_append.1 member
      · exact fresh.new a old
      · obtain rfl := mem_singleton.1 last
        exact outside.2
    · intro a
      rw [Names.contains_insert, fresh.all, mem_append, mem_singleton, or_left_comm, or_assoc]

end Front

section

variable (next : String → List String) (seen : Names) (row : List String)

theorem sweep_eq : sweep next seen row = (row.flatMap next).foldl Front.meet ⟨seen, []⟩ := foldl_flatMap.symm

theorem fresh_sweep : (sweep next seen row).Fresh seen := by
  rw [sweep_eq]
  refine List.foldlRecOn _ _ ?_ fun _ fresh name _ => fresh.meet name
  exact ⟨nodup_nil, fun a member => absurd member not_mem_nil, fun a => by simp⟩

theorem contains_sweep (a : String) :
    (sweep next seen row).seen.contains a ↔ (∃ c ∈ row, a ∈ next c) ∨ seen.contains a := by
  rw [sweep_eq, Front.contains_foldl_meet, mem_flatMap]

theorem mem_met (a : String) : a ∈ (sweep next seen row).met ↔ (∃ c ∈ row, a ∈ next c) ∧ ¬ seen.contains a := by
  have fresh := fresh_sweep next seen row
  have all := (fresh.all a).symm.trans (contains_sweep next seen row a)
  constructor
  · intro met
    have new := fresh.new a met
    exact ⟨(all.1 (.inl met)).resolve_right new, new⟩
  · rintro ⟨link, new⟩
    exact (all.2 (.inl link)).resolve_right new

end

/-! ### All rounds -/

/-- A search from `start` has come `n` edges far. -/
structure Reached (edge : String → String → Prop) (start : String) (n : Nat) (seen : Names) (row : List String) :
    Prop where
  within : ∀ a, seen.contains a ↔ ∃ m ≤ n, Distance edge m start a
  border : ∀ a, a ∈ row ↔ Distance edge n start a

section

variable {next : String → List String} {start : String} {seen : Names} {row : List String}

theorem reached_start (edge : String → String → Prop) (start : String) :
    Reached edge start 0 (.single start) [start] := by
  have only (a : String) : Distance edge 0 start a ↔ a = start := by
    refine ⟨fun far => far.eq_of_zero.symm, ?_⟩
    rintro rfl
    exact .here a
  constructor
  · intro a
    simp [Names.single, Names.contains, KeyMap.contains, only, Option.isSome_iff_exists]
  · intro a
    rw [only, mem_singleton]

/-- A round goes one edge further. -/
theorem Reached.sweep (reached : Reached (fun a b => b ∈ next a) start n seen row) :
    Reached (fun a b => b ∈ next a) start (n + 1) (sweep next seen row).seen (sweep next seen row).met := by
  have border (a : String) : a ∈ (Graph.sweep next seen row).met ↔
      Distance (fun a b => b ∈ next a) (n + 1) start a := by
    rw [mem_met, reached.within]
    constructor
    · rintro ⟨⟨c, member, link⟩, new⟩
      exact ((reached.border c).1 member).after link new
    · intro far
      obtain ⟨c, near, link⟩ := far.before
      refine ⟨⟨c, (reached.border c).2 near, link⟩, ?_⟩
      rintro ⟨m, less, nearer⟩
      have := nearer.unique far
      omega
  refine ⟨fun a => ?_, border⟩
  rw [(fresh_sweep next seen row).all, border, reached.within]
  constructor
  · rintro (far | ⟨m, less, near⟩)
    · exact ⟨n + 1, Nat.le_refl _, far⟩
    · exact ⟨m, by omega, near⟩
  · rintro ⟨m, less, far⟩
    obtain rfl | less := Nat.eq_or_lt_of_le less
    · exact .inl far
    · exact .inr ⟨m, by omega, far⟩

theorem spread_spec (rounds : Nat) (reached : Reached (fun a b => b ∈ next a) start n seen row) :
    (spread next rounds seen row).Nodup ∧
      ∀ a, a ∈ spread next rounds seen row ↔
        ∃ m, n < m ∧ m ≤ n + rounds ∧ Distance (fun a b => b ∈ next a) m start a := by
  induction rounds generalizing n seen row with
  | zero =>
    refine ⟨nodup_nil, fun a => ?_⟩
    rw [spread]
    constructor
    · intro member
      cases member
    · rintro ⟨m, more, less, -⟩
      omega
  | succ rounds ih =>
    have further := reached.sweep
    obtain ⟨once, all⟩ := ih further
    rw [spread]
    constructor
    · refine nodup_append.2 ⟨(fresh_sweep next seen row).once, once, ?_⟩
      rintro a met _ later rfl
      obtain ⟨m, more, -, far⟩ := (all a).1 later
      have := far.unique ((further.border a).1 met)
      omega
    · intro a
      rw [mem_append, further.border, all]
      constructor
      · rintro (far | ⟨m, more, less, far⟩)
        · exact ⟨n + 1, by omega, by omega, far⟩
        · exact ⟨m, by omega, by omega, far⟩
      · rintro ⟨m, more, less, far⟩
        obtain rfl | more := Nat.eq_or_lt_of_le (Nat.succ_le_of_lt more)
        · exact .inl far
        · exact .inr ⟨m, more, by omega, far⟩

end

/-- The tables at a distance of one edge or more, and no more than a limit if there is one. -/
def Within (edge : String → String → Prop) (depth : Int) (a b : String) : Prop :=
  ∃ n, Distance edge n a b ∧ 1 ≤ n ∧ (0 < depth → n ≤ depth)

section

variable {g : Graph} {next : String → List String} (known : ∀ x y, y ∈ next x → g.Has x ∧ g.Has y)

include known

theorem mem_reach (name : String) (depth : Int) (a : String) :
    a ∈ g.reach next name depth ↔ Within (fun a b => b ∈ next a) depth name a := by
  have found := (spread_spec (g.rounds depth) (reached_start (fun a b => b ∈ next a) name)).2 a
  rw [reach, mem_mergeSort, found, rounds]
  constructor
  · rintro ⟨m, more, less, far⟩
    refine ⟨m, far, more, fun limited => ?_⟩
    rw [if_neg (Int.not_le.2 limited)] at less
    omega
  · rintro ⟨m, far, more, limit⟩
    refine ⟨m, more, ?_, far⟩
    -- A table that is one edge away or more stands at the end of an edge.
    have last : a ∈ g.names := by
      obtain ⟨k, rfl⟩ := Nat.exists_eq_add_of_le' more
      obtain ⟨c, -, link⟩ := far.before
      exact mem_names.2 (known c a link).2
    have short := far.lt_of_known (fun x y link => mem_names.2 (known x y link).1) last
    rw [length_names] at short
    split <;> omega

omit known in
theorem sorted_reach (name : String) (depth : Int) : (g.reach next name depth).Pairwise (· < ·) := by
  have once := (spread_spec (g.rounds depth) (reached_start (fun a b => b ∈ next a) name)).1
  have apart : (g.reach next name depth).Nodup := (mergeSort_perm ..).nodup_iff.2 once
  have sorted : (g.reach next name depth).Pairwise (· ≤ ·) :=
    Store.Tables.pairwise_mergeSort Store.Tables.not_decide_lt_iff _
  exact (sorted.and apart).imp fun ⟨less, different⟩ => lt_of_le_of_ne less different

end

section

variable {g : Graph} (sound : g.Sound)

include sound

theorem mem_downstream (name : String) (depth : Int) (a : String) :
    a ∈ g.downstream name depth ↔ Within g.Edge depth name a := by
  have edges : (fun a b => b ∈ g.childList a) = g.Edge := by
    funext a b
    exact propext edge_iff.symm
  rw [downstream, mem_reach sound.known, edges]

theorem mem_upstream (name : String) (depth : Int) (a : String) :
    a ∈ g.upstream name depth ↔ Within g.Edge depth a name := by
  have edges : (fun a b => b ∈ g.parentList a) = fun a b => g.Edge b a := by
    funext a b
    exact propext sound.mem_parentList
  have known (x y : String) (link : y ∈ g.parentList x) : g.Has x ∧ g.Has y :=
    (sound.known y x ((sound.transposed y x).2 link)).symm
  rw [upstream, mem_reach known, edges]
  constructor
  · rintro ⟨n, far, limits⟩
    exact ⟨n, far.swap, limits⟩
  · rintro ⟨n, far, limits⟩
    exact ⟨n, far.swap, limits⟩

end

theorem Within.ne {depth : Int} (within : Within edge depth a b) : a ≠ b := by
  obtain ⟨n, far, some, -⟩ := within
  exact far.ne some

theorem Within.has {g : Graph} (sound : g.Sound) {depth : Int} (within : Within g.Edge depth a b) :
    g.Has a ∧ g.Has b := by
  obtain ⟨n, far, some, -⟩ := within
  obtain ⟨n, rfl⟩ := Nat.exists_eq_add_of_le' some
  -- The first table stands at the start of an edge, which is the last one of the way turned round.
  obtain ⟨c, -, first⟩ := far.swap.before
  obtain ⟨d, -, last⟩ := far.before
  exact ⟨first.has, sound.closed d b last⟩

/-- The tables upstream of a table are, in order and each once, the other tables from which it is some edges away,
no more than the limit if there is one; those downstream are the other tables so far away from it. There are none
for a name that no table has. One table is upstream of another just if the other is downstream of the one. -/
theorem reach_by_distance (ops : List Operation) (table : String) (depth : Int) :
    ((made ops).upstream table depth).Pairwise (· < ·) ∧
      (∀ a, a ∈ (made ops).upstream table depth ↔ a ≠ table ∧ Within (made ops).Edge depth a table) ∧
      ((made ops).downstream table depth).Pairwise (· < ·) ∧
      (∀ a, a ∈ (made ops).downstream table depth ↔ a ≠ table ∧ Within (made ops).Edge depth table a) ∧
      (¬ (made ops).Has table → (made ops).upstream table depth = [] ∧ (made ops).downstream table depth = []) ∧
      ∀ other, other ∈ (made ops).upstream table depth ↔ table ∈ (made ops).downstream other depth := by
  have sound := sound_made ops
  refine ⟨sorted_reach table depth, fun a => ?_, sorted_reach table depth, fun a => ?_, fun unknown => ⟨?_, ?_⟩,
    fun other => ?_⟩
  · rw [mem_upstream sound]
    exact ⟨fun within => ⟨within.ne, within⟩, And.right⟩
  · rw [mem_downstream sound]
    exact ⟨fun within => ⟨within.ne.symm, within⟩, And.right⟩
  · refine List.eq_nil_iff_forall_not_mem.2 fun a member => ?_
    exact unknown (((mem_upstream sound ..).1 member).has sound).2
  · refine List.eq_nil_iff_forall_not_mem.2 fun a member => ?_
    exact unknown (((mem_downstream sound ..).1 member).has sound).1
  · rw [mem_upstream sound, mem_downstream sound]

end TableLineage.Graph
