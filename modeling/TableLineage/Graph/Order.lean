import TableLineage.Graph.Cycle

/-! Orders of a graph without cycles: every table after the tables it is built from, and
levels by the longest way to a table. -/
namespace TableLineage.Graph

/-- Tables put in order so far. A table that was visited may still wait for those it is built from. -/
structure Placing where
  visited : Names
  order : List String

def place (g : Graph) : Nat → Placing → String → Placing
  | 0, p, _ => p
  | fuel + 1, p, name =>
    if p.visited.contains name then p
    else
      let above := (g.parents name).toList.foldl (place g fuel) ⟨p.visited.insert name, p.order⟩
      ⟨above.visited, above.order ++ [name]⟩

/-- All tables in order; no way is longer than the number of tables. -/
def placed (g : Graph) : List String := (g.names.foldl (place g g.nodeCount) ⟨.empty, []⟩).order

def order (g : Graph) : Except Cycle (List String) :=
  match g.cycle? with
  | some c => .error c
  | none => .ok g.placed

/-- Raises a level above that of one more table, which is looked up or worked out. -/
def raise (level : KeyMap Nat → String → KeyMap Nat × Nat) (above : KeyMap Nat × Nat) (name : String) :
    KeyMap Nat × Nat :=
  let found := level above.1 name
  (found.1, max above.2 (found.2 + 1))

/-- The level of a table, one above the highest of the tables it is built from. A level that is
known is not worked out again. -/
def levelOf (g : Graph) : Nat → KeyMap Nat → String → KeyMap Nat × Nat
  | 0, known, _ => (known, 0)
  | fuel + 1, known, name =>
    match known.get? name with
    | some level => (known, level)
    | none =>
      let above := (g.parentList name).foldl (raise (levelOf g fuel)) (known, 0)
      (above.1.insert name above.2, above.2)

def levelsAlong (g : Graph) (row : List String) : KeyMap Nat :=
  row.foldl (fun known name => (g.levelOf g.nodeCount known name).1) .empty

def levelMap (g : Graph) : KeyMap Nat := g.levelsAlong g.names

def height (levels : KeyMap Nat) : Nat := (levels.entries.map fun e => e.2 + 1).foldl max 0

def strata (levels : KeyMap Nat) : List (List String) :=
  (List.range (height levels)).map fun k => (levels.filterEntries fun _ l => l = k).keys

def levels (g : Graph) : Except Cycle (List (List String)) :=
  match g.cycle? with
  | some c => .error c
  | none => .ok (strata g.levelMap)

end TableLineage.Graph
