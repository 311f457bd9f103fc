import TableLineage.Graph.Basic

/-! Cycles. The search goes depth first, through tables and their children in order, and
ends at the first edge that leads back to a table it came through. -/
namespace TableLineage

structure Cycle where
  path : List String
  deriving DecidableEq, Repr

def Cycle.message (c : Cycle) : String := "cycle detected: [" ++ " ".intercalate c.path ++ "]"

namespace Cycle

/-- The cycle that an edge to `name` closes; `trail` holds the tables the search came
through, the last one first. -/
def closing (trail : List String) (name : String) : Cycle :=
  ⟨name :: (trail.takeWhile (· ≠ name)).reverse ++ [name]⟩

def search (next : String → Names) : Nat → List String → Names → String → Except Cycle Names
  | 0, _, visited, _ => .ok visited
  | fuel + 1, trail, visited, name =>
    (next name).toList.foldlM (fun visited child =>
      if (name :: trail).contains child then .error (closing (name :: trail) child)
      else if visited.contains child then .ok visited
      else search next fuel (name :: trail) visited child) (visited.insert name)

end Cycle

namespace Graph

/-- Visits all tables; no trail is longer than the number of tables. -/
def visitAll (g : Graph) : Except Cycle Names :=
  g.names.foldlM (fun visited name =>
    if visited.contains name then .ok visited
    else Cycle.search g.children g.nodeCount [] visited name) .empty

def cycle? (g : Graph) : Option Cycle :=
  match g.visitAll with
  | .error c => some c
  | .ok _ => none

end Graph
end TableLineage
