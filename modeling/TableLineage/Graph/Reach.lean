import TableLineage.Graph.Basic

/-! Which tables lie before and after a table. The search goes in rounds, each one edge further
than the last. -/
namespace TableLineage.Graph

/-- What a search has seen, and the tables that are new in the round at hand. -/
structure Front where
  seen : Names
  met : List String

/-- Meets a table; one that was seen before is passed by. -/
def Front.meet (f : Front) (name : String) : Front :=
  if f.seen.contains name then f else ⟨f.seen.insert name, f.met ++ [name]⟩

/-- One round, from the tables of a row to all that come next. -/
def sweep (next : String → List String) (seen : Names) (row : List String) : Front :=
  row.foldl (fun f name => (next name).foldl Front.meet f) ⟨seen, []⟩

/-- The tables that are met in so many rounds, each from what the one before it met. -/
def spread (next : String → List String) : Nat → Names → List String → List String
  | 0, _, _ => []
  | rounds + 1, seen, row =>
    let front := sweep next seen row
    front.met ++ spread next rounds front.seen front.met

/-- How many rounds a search makes. A depth that is not positive sets no limit; no shortest way
has as many edges as there are tables. -/
def rounds (g : Graph) (depth : Int) : Nat := if depth ≤ 0 then g.nodeCount else min depth.toNat g.nodeCount

def reach (g : Graph) (next : String → List String) (name : String) (depth : Int) : List String :=
  (spread next (g.rounds depth) (.single name) [name]).mergeSort fun a b => !(b < a)

def upstream (g : Graph) (name : String) (depth : Int) : List String := g.reach g.parentList name depth

def downstream (g : Graph) (name : String) (depth : Int) : List String := g.reach g.childList name depth

end TableLineage.Graph
