import TableLineage.Text.Quoted

/-! Ids of runs and events: 128 bits in groups of hexadecimal digits, of which six bits
say how the id was made. -/
namespace TableLineage.RunId

def ofNumber (n : Nat) : String :=
  String.ofList (Text.hex 8 (n >>> 96) ++ '-' :: Text.hex 4 (n >>> 80) ++ '-' :: '4' :: Text.hex 3 (n >>> 64) ++
    '-' :: Text.hexDigit (8 + (n >>> 60) % 4) :: Text.hex 3 (n >>> 48) ++ '-' :: Text.hex 12 n)

end TableLineage.RunId

namespace TableLineage

/-- Gives out ids one after the other; `last` is the number of the last one. -/
structure IdSource where
  last : Nat
  deriving DecidableEq, Repr, Inhabited

namespace IdSource

def next (s : IdSource) : String × IdSource := (RunId.ofNumber (s.last + 1), ⟨s.last + 1⟩)

/-- The id that is `k` after the next one. -/
def ahead (s : IdSource) (k : Nat) : String := RunId.ofNumber (s.last + 1 + k)

/-- The source without its next `k` ids. -/
def skip (s : IdSource) (k : Nat) : IdSource := ⟨s.last + k⟩

end IdSource
end TableLineage
