import Mathlib.Data.List.Chain
import Mathlib.Data.List.Perm.Subperm
import TableLineage.Graph.Cycle
import TableLineage.Proofs.Graph.Built

/-! The search for cycles is exact. It fails only on an edge back to a table that it came through,
which closes a ring. A table that it leaves has no endless way ahead of it: every way from the table
comes to an end, because those from its children do. So a search that passes all tables has shown
that there is no ring. -/
namespace TableLineage

open List

variable {names : List String} {visited : Names}

namespace Cycle

/-- A way through different tables, at least two of them, and back to the first. -/
structure IsRing (edge : String → String → Prop) (path : List String) : Prop where
  parts : ∃ first rest, path = first :: (rest ++ [first]) ∧ rest ≠ [] ∧ (first :: rest).Nodup
  walk : path.IsChain edge

/-- Whether one of the tables after `a` is `b`. -/
def Leads (next : String → Names) (a b : String) : Prop := (next a).contains b

variable {edge : String → String → Prop} {trail : List String} {name : String} {fuel : Nat}

/-- No way from the table goes on for ever. -/
abbrev Ends (edge : String → String → Prop) (name : String) : Prop := Acc (fun b a => edge a b) name

theorem Ends.not_round {a : String} (ends : Ends edge a) : ¬ Relation.TransGen edge a a := by
  have far := ends.transGen
  clear ends
  induction far with
  | intro a _ ih =>
    intro round
    exact ih a (Relation.transGen_swap.2 round) round

theorem IsRing.not_ends {path : List String} (ring : IsRing edge path) : ∃ a b, edge a b ∧ ¬ Ends edge a := by
  obtain ⟨⟨first, rest, rfl, some, -⟩, walk⟩ := ring
  obtain ⟨next, rest, rfl⟩ := exists_cons_of_ne_nil some
  refine ⟨first, next, (isChain_cons_cons.1 walk).1, fun ends => ?_⟩
  -- The way leads from the first table to itself.
  have far := (walk.imp fun _ _ => Relation.TransGen.single).pairwise
  exact Ends.not_round ends ((pairwise_cons.1 far).1 first (by simp))

/-! ### Rings that an edge closes -/

/-- The tables that the search came through, the last one first: each was reached from the one
behind it. -/
structure Trail (edge : String → String → Prop) (names trail : List String) : Prop where
  different : trail.Nodup
  known : ∀ a ∈ trail, a ∈ names
  linked : trail.IsChain fun b a => edge a b

theorem length_lt (different : (name :: trail).Nodup) (known : ∀ a ∈ name :: trail, a ∈ names) :
    trail.length < names.length :=
  (List.Nodup.subperm different known).length_le

/-- An edge from the last table of a trail back into the trail closes a ring. -/
theorem Trail.ring {child : String} (along : Trail edge names (name :: trail)) (link : edge name child)
    (other : name ≠ child) (back : child ∈ name :: trail) : IsRing edge (closing (name :: trail) child).path := by
  have later : child ∈ trail := (mem_cons.1 back).resolve_left (Ne.symm other)
  obtain ⟨front, behind, rfl, fresh⟩ := eq_append_cons_of_mem later
  have taken : (name :: (front ++ child :: behind)).takeWhile (· ≠ child) = name :: front := by
    have passed : ∀ a ∈ name :: front, decide (a ≠ child) = true := by
      intro a member
      obtain rfl | inside := mem_cons.1 member
      · simpa using other
      · simpa using ne_of_mem_of_not_mem inside fresh
    rw [← cons_append, takeWhile_append_of_pos passed]
    simp
  have apart : (child :: name :: front).Nodup := by
    have whole : (name :: front ++ child :: behind).Nodup := along.different
    obtain ⟨before, -, separate⟩ := nodup_append.1 whole
    exact nodup_cons.2 ⟨fun inside => separate child inside child mem_cons_self rfl, before⟩
  have backwards : (child :: name :: front ++ [child]).IsChain fun b a => edge a b := by
    have whole : (name :: front ++ [child] ++ behind).IsChain fun b a => edge a b := by
      simpa using along.linked
    exact isChain_cons_cons.2 ⟨link, (isChain_append.1 whole).1⟩
  refine ⟨⟨child, (name :: front).reverse, ?_, by simp, ?_⟩, ?_⟩
  · rw [closing, taken]
    rfl
  · obtain ⟨outside, inner⟩ := nodup_cons.1 apart
    exact nodup_cons.2 ⟨fun inside => outside (mem_reverse.1 inside), nodup_reverse.2 inner⟩
  · rw [closing, taken, ← isChain_reverse]
    simpa using backwards

/-- A trail goes on to a table that is not on it. -/
theorem Trail.cons {names trail : List String} {name child : String} (along : Trail edge names (name :: trail))
    (link : edge name child) (known : child ∈ names) (fresh : child ∉ name :: trail) :
    Trail edge names (child :: name :: trail) where
  different := nodup_cons.2 ⟨fresh, along.different⟩
  known := forall_mem_cons.2 ⟨known, along.known⟩
  linked := isChain_cons_cons.2 ⟨link, along.linked⟩

/-! ### What a search says -/

/-- A search fails with a ring, or what it has visited at its end is as said. -/
inductive Exact (edge : String → String → Prop) (P : Names → Prop) : Except Cycle Names → Prop
  | ring {c : Cycle} (found : IsRing edge c.path) : Exact edge P (.error c)
  | passed {after : Names} (holds : P after) : Exact edge P (.ok after)

theorem Exact.bind {P Q : Names → Prop} {x : Except Cycle Names} {f : Names → Except Cycle Names}
    (first : Exact edge P x) (rest : ∀ after, P after → Exact edge Q (f after)) : Exact edge Q (x >>= f) := by
  cases first with
  | ring found => exact .ring found
  | passed holds => exact rest _ holds

theorem Exact.imp {P Q : Names → Prop} {x : Except Cycle Names} (exact : Exact edge P x)
    (weaker : ∀ after, P after → Q after) : Exact edge Q x := by
  cases exact with
  | ring found => exact .ring found
  | passed holds => exact .passed (weaker _ holds)

/-- What has been visited and left behind leads nowhere for ever; what is still on the trail may. -/
def Settled (edge : String → String → Prop) (trail : List String) (visited : Names) : Prop :=
  ∀ a, visited.contains a → a ∉ trail → Ends edge a

/-- The search has visited more, and all that it left behind is settled. -/
structure Advanced (edge : String → String → Prop) (trail : List String) (before after : Names) : Prop where
  grown : ∀ a, before.contains a → after.contains a
  settled : Settled edge trail after

theorem Advanced.trans {a b c : Names} (first : Advanced edge trail a b) (second : Advanced edge trail b c) :
    Advanced edge trail a c :=
  ⟨fun n inside => second.grown n (first.grown n inside), second.settled⟩

/-- A search, along a trail, from a table that is not on it. -/
def Searched (edge : String → String → Prop) (trail : List String) (visited : Names) (name : String) :
    Except Cycle Names → Prop :=
  Exact edge fun after => Advanced edge trail visited after ∧ after.contains name

section

variable {next : String → Names} (loopless : ∀ a, ¬ Leads next a a) (closed : ∀ a b, Leads next a b → b ∈ names)

include loopless closed

/-- The children of the last table of the trail, one after the other, if the search from each new
one is as it should be. -/
theorem exact_children (along : Trail (Leads next) names (name :: trail))
    (deeper : ∀ visited child, Trail (Leads next) names (child :: name :: trail) →
      Settled (Leads next) (name :: trail) visited →
      Searched (Leads next) (name :: trail) visited child (search next fuel (name :: trail) visited child))
    {children : List String} (links : ∀ c ∈ children, Leads next name c)
    (settled : Settled (Leads next) (name :: trail) visited) :
    Exact (Leads next)
      (fun after => Advanced (Leads next) (name :: trail) visited after ∧ ∀ c ∈ children, Ends (Leads next) c)
      (children.foldlM (fun visited child =>
        if (name :: trail).contains child then .error (closing (name :: trail) child)
        else if visited.contains child then .ok visited
        else search next fuel (name :: trail) visited child) visited) := by
  induction children generalizing visited with
  | nil => exact .passed ⟨⟨fun _ => id, settled⟩, fun _ member => absurd member not_mem_nil⟩
  | cons child rest ih =>
    obtain ⟨link, others⟩ := forall_mem_cons.1 links
    -- The first child closes a ring, or it comes to an end and the search goes on.
    have one : Exact (Leads next)
        (fun after => Advanced (Leads next) (name :: trail) visited after ∧ Ends (Leads next) child)
        (if (name :: trail).contains child then .error (closing (name :: trail) child)
          else if visited.contains child then .ok visited
          else search next fuel (name :: trail) visited child) := by
      split
      · next back =>
        refine .ring (along.ring link ?_ (contains_iff_mem.1 back))
        rintro rfl
        exact loopless name link
      · next outside =>
        have fresh : child ∉ name :: trail := fun back => outside (contains_iff_mem.2 back)
        split
        · next old => exact .passed ⟨⟨fun _ => id, settled⟩, settled child old fresh⟩
        · refine (deeper visited child (along.cons link (closed _ _ link) fresh) settled).imp ?_
          rintro after ⟨advanced, there⟩
          exact ⟨advanced, advanced.settled child there fresh⟩
    rw [foldlM_cons]
    refine one.bind fun after ⟨advanced, ends⟩ => (ih others advanced.settled).imp ?_
    rintro last ⟨more, all⟩
    exact ⟨advanced.trans more, forall_mem_cons.2 ⟨ends, all⟩⟩

/-- The depth that is left covers all tables that are not on the trail, so it never runs out. -/
theorem exact_search (along : Trail (Leads next) names (name :: trail)) (deep : names.length ≤ trail.length + fuel)
    (settled : Settled (Leads next) trail visited) :
    Searched (Leads next) trail visited name (search next fuel trail visited name) := by
  induction fuel generalizing trail visited name with
  | zero =>
    have short := length_lt along.different along.known
    omega
  | succ fuel ih =>
    have entered : Settled (Leads next) (name :: trail) (visited.insert name) := by
      intro a inside outside
      obtain ⟨other, outside⟩ := not_or.1 (mt mem_cons.2 outside)
      exact settled a (((Names.contains_insert _ _ _).1 inside).resolve_left other) outside
    have links : ∀ c ∈ (next name).toList, Leads next name c := fun c member => KeyMap.mem_keys.1 member
    have left : names.length ≤ (name :: trail).length + fuel := by
      rw [length_cons]
      omega
    refine (exact_children loopless closed along (fun _ _ further => ih further left) links entered).imp ?_
    rintro after ⟨advanced, all⟩
    have there : after.contains name := advanced.grown name ((Names.contains_insert _ _ _).2 (.inl rfl))
    refine ⟨⟨fun a old => advanced.grown a ((Names.contains_insert _ _ _).2 (.inr old)), ?_⟩, there⟩
    intro a inside outside
    by_cases here : a = name
    · subst here
      exact .intro a fun c link => all c (KeyMap.mem_keys.2 link)
    · exact advanced.settled a inside fun member => (mem_cons.1 member).elim here outside

end

theorem foldlM_eq_of_mem {α ε σ : Type} {xs : List α} {f g : σ → α → Except ε σ} (same : ∀ x ∈ xs, ∀ s, f s x = g s x)
    (s : σ) : xs.foldlM f s = xs.foldlM g s := by
  induction xs generalizing s with
  | nil => rfl
  | cons x xs ih =>
    obtain ⟨first, rest⟩ := forall_mem_cons.1 same
    rw [foldlM_cons, foldlM_cons, first]
    exact congrArg (g s x >>= ·) (funext (ih rest))

/-- The search is the same at any depth that covers the tables. -/
theorem search_deep {next : String → Names} (closed : ∀ a b, Leads next a b → b ∈ names) {fuel' : Nat}
    (different : (name :: trail).Nodup) (known : ∀ a ∈ name :: trail, a ∈ names)
    (deep : names.length ≤ trail.length + fuel) (deep' : names.length ≤ trail.length + fuel') (visited : Names) :
    search next fuel trail visited name = search next fuel' trail visited name := by
  induction fuel generalizing fuel' trail name visited with
  | zero =>
    have short := length_lt different known
    omega
  | succ fuel ih =>
    cases fuel' with
    | zero =>
      have short := length_lt different known
      omega
    | succ fuel' =>
      rw [search, search]
      refine foldlM_eq_of_mem (fun child member visited => ?_) _
      split
      · rfl
      · next outside =>
        have fresh : child ∉ name :: trail := fun back => outside (contains_iff_mem.2 back)
        have different := nodup_cons.2 ⟨fresh, different⟩
        have known := forall_mem_cons.2 ⟨closed name child (KeyMap.mem_keys.1 member), known⟩
        have deeper : search next fuel (name :: trail) visited child = search next fuel' (name :: trail) visited child :=
          ih different known (by rw [length_cons]; omega) (by rw [length_cons]; omega) visited
        rw [deeper]

end Cycle

namespace Graph

open Cycle

/-- Visits all tables, no trail longer than `depth`. -/
def visitWithin (g : Graph) (depth : Nat) : Except Cycle Names :=
  g.names.foldlM (fun visited name =>
    if visited.contains name then .ok visited else search g.children depth [] visited name) .empty

variable {g : Graph} (closed : g.Closed)

include closed

/-- Tables in turn, each visited unless it was before. -/
theorem exact_visit (loopless : ∀ a, ¬ g.Edge a a) (known : ∀ a ∈ names, g.Has a) (settled : Settled g.Edge [] visited) :
    Exact g.Edge (fun after => Advanced g.Edge [] visited after ∧ ∀ a ∈ names, after.contains a)
      (names.foldlM (fun visited name =>
        if visited.contains name then .ok visited else search g.children g.nodeCount [] visited name) visited) := by
  induction names generalizing visited with
  | nil => exact .passed ⟨⟨fun _ => id, settled⟩, fun _ member => absurd member not_mem_nil⟩
  | cons name rest ih =>
    obtain ⟨here, others⟩ := forall_mem_cons.1 known
    have one : Searched g.Edge [] visited name
        (if visited.contains name then .ok visited else search g.children g.nodeCount [] visited name) := by
      split
      · next old => exact .passed ⟨⟨fun _ => id, settled⟩, old⟩
      · have along : Trail (Leads g.children) g.names [name] :=
          ⟨nodup_singleton name, by simpa using mem_names.2 here, isChain_singleton name⟩
        refine exact_search loopless (fun a b edge => mem_names.2 (closed a b edge)) along ?_ settled
        rw [length_names, length_nil, Nat.zero_add]
    rw [foldlM_cons]
    refine one.bind fun after ⟨advanced, there⟩ => (ih others advanced.settled).imp ?_
    rintro last ⟨more, all⟩
    exact ⟨advanced.trans more, forall_mem_cons.2 ⟨more.grown name there, all⟩⟩

theorem exact_visitAll (loopless : ∀ a, ¬ g.Edge a a) :
    Exact g.Edge (fun _ => ∀ a, g.Has a → Ends g.Edge a) g.visitAll := by
  have none : Settled g.Edge [] .empty := fun a inside => absurd inside (Names.not_contains_empty a)
  refine (exact_visit closed loopless (fun a member => mem_names.1 member) none).imp ?_
  rintro after ⟨advanced, all⟩ a here
  exact advanced.settled a (all a (mem_names.2 here)) not_mem_nil

theorem visitWithin_eq {depth : Nat} (deep : g.nodeCount ≤ depth) : g.visitWithin depth = g.visitAll := by
  refine foldlM_eq_of_mem (fun name member visited => ?_) _
  have known : ∀ a ∈ [name], a ∈ g.names := forall_mem_singleton.2 member
  have enough : g.names.length ≤ ([] : List String).length + g.nodeCount := by
    rw [length_names, length_nil, Nat.zero_add]
  rw [search_deep (fun a b edge => mem_names.2 (closed a b edge)) (nodup_singleton name) known
    (enough.trans (Nat.add_le_add_left deep _)) enough]

omit closed in
theorem cycle?_isSome_iff : g.cycle?.isSome ↔ ∃ c, g.visitAll = .error c := by
  unfold cycle?
  cases g.visitAll with
  | error c => simp
  | ok after => simp

end Graph

open Cycle Graph in
/-- The search finds a cycle just if the calls that built the graph link different tables, at least
two, to a ring; the cycle it gives is such a ring. It does so at every depth that covers the number of
tables, so the bound on its depth cuts nothing off. -/
theorem Graph.cycle_search_exact (calls : List Call) :
    ((build calls).cycle?.isSome ↔ ∃ path, IsRing (Linked calls) path) ∧
      (∀ c, (build calls).cycle? = some c → IsRing (Linked calls) c.path) ∧
      ∀ depth, (build calls).nodeCount ≤ depth → (build calls).visitWithin depth = (build calls).visitAll := by
  have closed := closed_build calls
  have edges : (build calls).Edge = Linked calls := by
    funext a b
    exact propext (edge_build calls a b)
  have exact := exact_visitAll closed fun a edge => (edges ▸ edge).1 rfl
  rw [edges] at exact
  have sound : ∀ c, (build calls).visitAll = .error c → IsRing (Linked calls) c.path := by
    intro c failed
    rw [failed] at exact
    cases exact with
    | ring found => exact found
  refine ⟨?_, ?_, fun depth deep => visitWithin_eq closed deep⟩
  · rw [cycle?_isSome_iff]
    constructor
    · rintro ⟨c, failed⟩
      exact ⟨c.path, sound c failed⟩
    · rintro ⟨path, ring⟩
      -- A search without an outcome has shown that every way comes to an end.
      obtain ⟨a, b, edge, endless⟩ := ring.not_ends
      generalize (build calls).visitAll = outcome at exact
      cases exact with
      | ring found => exact ⟨_, rfl⟩
      | passed ends =>
        have here : (build calls).Has a := Edge.has (edges ▸ edge : (build calls).Edge a b)
        exact absurd (ends a here) endless
  · intro c found
    refine sound c ?_
    unfold cycle? at found
    split at found
    · next failed => exact failed.trans (congrArg _ (Option.some.inj found))
    · cases found

end TableLineage
