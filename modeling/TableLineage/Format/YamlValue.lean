import TableLineage.Format.YamlScalar

/-! YAML documents: maps and lists in block form, two blanks deeper for each level. -/
namespace TableLineage

inductive YamlValue where
  | null
  | int (n : Int)
  | str (s : String)
  | list (items : List YamlValue)
  | map (fields : List (String × YamlValue))
  deriving Repr

namespace YamlValue

def step : Nat := 2

def endLine (cs : List Char) : List Char := if (cs.getLast?.map Yaml.isBreak).getD false then cs else cs ++ ['\n']

mutual

/-- The text after a key; `indent` is how far the key stands in. -/
def afterKey (indent : Nat) : YamlValue → List Char
  | .null => " null\n".toList
  | .int n => ' ' :: (toString n).toList ++ ['\n']
  | .str s => endLine (' ' :: Yaml.scalar step (indent + step) s)
  | .list [] => " []\n".toList
  | .list (v :: vs) => '\n' :: listItems (indent + step) (v :: vs)
  | .map [] => [' ', '\x7b', '\x7d', '\n']
  | .map (f :: fs) => '\n' :: mapFields (indent + step) (f :: fs)

/-- The text after the dash of an item; `indent` is how far the item itself stands in. -/
def afterDash (indent : Nat) : YamlValue → List Char
  | .null => "null\n".toList
  | .int n => (toString n).toList ++ ['\n']
  | .str s => endLine (Yaml.scalar step (indent + step) s)
  | .list [] => "[]\n".toList
  | .list (v :: vs) =>
    '-' :: ' ' :: afterDash (indent + step) v ++ listItems indent vs
  | .map [] => ['\x7b', '\x7d', '\n']
  | .map ((k, v) :: fs) => Yaml.scalar step (indent + step) k ++ ':' :: afterKey indent v ++ mapFields indent fs

def listItems (indent : Nat) : List YamlValue → List Char
  | [] => []
  | v :: vs => Yaml.indentOf indent ++ '-' :: ' ' :: afterDash (indent + step) v ++ listItems indent vs

def mapFields (indent : Nat) : List (String × YamlValue) → List Char
  | [] => []
  | (k, v) :: fs =>
    Yaml.indentOf indent ++ Yaml.scalar step (indent + step) k ++ ':' :: afterKey indent v ++ mapFields indent fs

end

def document (fields : List (String × YamlValue)) : String := String.ofList (mapFields 0 fields)

end YamlValue
end TableLineage
