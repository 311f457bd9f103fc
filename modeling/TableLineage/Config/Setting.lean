import TableLineage.Format.YamlDecode

/-! Settings before they are checked: values of any kind under keys, in sections. Layers
of settings are laid over each other; a section is laid over a section key by key. -/
namespace TableLineage

inductive Setting where
  | null
  | bool (b : Bool)
  /-- A whole number of 64 bits, with or without a sign. -/
  | int (n : Int)
  | float (x : Double)
  | time
  | str (s : String)
  | list (items : List Setting)
  | map (entries : List (String × Setting))

namespace Setting

/-! ### Layers -/

def get? (key : String) (entries : List (String × Setting)) : Option Setting :=
  (entries.find? fun e => e.1 == key).map (·.2)

def put (key : String) (value : Setting) : List (String × Setting) → List (String × Setting)
  | [] => [(key, value)]
  | e :: r => if e.1 == key then (key, value) :: r else e :: put key value r

mutual

def layOver (old : Option Setting) : Setting → Setting
  | .map entries =>
    match old with
    | some (.map base) => .map (layAllOver base entries)
    | _ => .map entries
  | new => new

def layAllOver (base : List (String × Setting)) : List (String × Setting) → List (String × Setting)
  | [] => base
  | (key, value) :: r => layAllOver (put key (layOver (get? key base) value) base) r

end

def within (path : List String) (value : Setting) : Setting :=
  path.foldr (fun key inner => .map [(key, inner)]) value

def putAt (base : Setting) (path : List String) (value : Setting) : Setting := layOver (some base) (within path value)

/-! ### From YAML -/

mutual

def ofDatum : Yaml.Datum → Setting
  | .null => .null
  | .bool b => .bool b
  | .int n => .int n
  | .float x => .float x
  | .time _ => .time
  | .str s => .str s
  | .list items => .list (ofItems items)
  | .map entries => .map (ofEntries entries)
  | .table entries => .map (ofTable [] entries)

def ofItems : List Yaml.Datum → List Setting
  | [] => []
  | d :: r => ofDatum d :: ofItems r

def ofEntries : List (String × Yaml.Datum) → List (String × Setting)
  | [] => []
  | (key, d) :: r => (key, ofDatum d) :: ofEntries r

def ofTable (done : List (String × Setting)) : List (Yaml.Datum × Yaml.Datum) → List (String × Setting)
  | [] => done
  | (key, d) :: r => ofTable (put key.keyText (ofDatum d) done) r

end

def ofYaml (text : String) : Except Yaml.EntriesFault (List (String × Setting)) :=
  (Yaml.entriesOf text).map ofEntries

end Setting
end TableLineage
