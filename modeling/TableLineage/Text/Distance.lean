import TableLineage.Text.Fold

/-! How far two words are apart: the least number of characters to be put in, taken out or
exchanged to get from one to the other. -/
namespace TableLineage.Text

/-- The distances from a word with one more character, from those without it: `corner` is
the last distance of the old row and `left` that of the new one. -/
def distanceRow (c : Char) (corner left : Nat) : List Char → List Nat → List Nat
  | d :: ds, above :: more =>
    let here := if c = d then corner else min (min above corner) left + 1
    here :: distanceRow c above here ds more
  | _, _ => []

def distancesFrom (target : List Char) : Nat → List Nat → List Char → List Nat
  | _, row, [] => row
  | k, row, c :: r => distancesFrom target (k + 1) (distanceRow c k (k + 1) target row) r

def distance (a b : String) : Nat :=
  let target := (lowerWord b).toList
  let row := distancesFrom target 0 ((List.range target.length).map (· + 1)) (lowerWord a).toList
  row.getLast?.getD (lowerWord a).length

end TableLineage.Text
