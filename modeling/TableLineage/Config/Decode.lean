import TableLineage.Config.Setting
import TableLineage.Text.Blank
import TableLineage.Text.Fold

/-! Settings as values of the kind that is wanted. Kinds give way to each other where that
makes sense: a number can be written as text, a list as one text with commas, a truth value
as a number. What cannot be taken is noted, and reading goes on. -/
namespace TableLineage

/-- A setting that is not of the kind that is wanted. -/
inductive DecodeFault where
  | noNumber (key : String) (fault : NumberFault)
  | noTruth (key : String)
  | wrongKind (key wanted found : String)
  | noSection (key found : String)
  deriving DecidableEq, Repr

def DecodeFault.message : DecodeFault → String
  | .noNumber key fault => "'" ++ key ++ "' cannot parse value as 'int': strconv.ParseInt: " ++ fault.text
  | .noTruth key => "'" ++ key ++ "' cannot parse value as 'bool': strconv.ParseBool: invalid syntax"
  | .wrongKind key wanted found =>
    "'" ++ key ++ "' expected type '" ++ wanted ++ "', got unconvertible type '" ++ found ++ "'"
  | .noSection key found => "'" ++ key ++ "' expected a map or struct, got " ++ Text.quote found

/-- A value, and what could not be taken on the way. -/
abbrev Decoded (α : Type) := α × List DecodeFault

namespace Setting

def kindName : Setting → String
  | .null => "<nil>"
  | .bool _ => "bool"
  | .int n => if n < Whole.signBound then "int" else "uint64"
  | .float _ => "float64"
  | .time => "time.Time"
  | .str _ => "string"
  | .list _ => "[]interface \x7b\x7d"
  | .map _ => "map[string]interface \x7b\x7d"

def familyName : Setting → String
  | .list _ => "slice"
  | .map _ => "map"
  | s => s.kindName

def toText (key : String) : Setting → Decoded String
  | .null => ("", [])
  | .str s => (s, [])
  | .bool b => (if b then "1" else "0", [])
  | .int n => (toString n, [])
  | .float x => (x.plainText, [])
  | s => ("", [.wrongKind key "string" s.kindName])

def toTruth (key : String) : Setting → Decoded Bool
  | .null => (false, [])
  | .bool b => (b, [])
  | .int n => (n ≠ 0, [])
  | .float x => (!x.isZero, [])
  | .str s =>
    match truth? s with
    | some b => (b, [])
    | none => (false, if s.isEmpty then [] else [.noTruth key])
  | s => (false, [.wrongKind key "bool" s.kindName])

def toNumber (key : String) : Setting → Decoded Int
  | .null => (0, [])
  | .int n => (if n < Whole.signBound then n else n - Whole.wordBound, [])
  | .bool b => (if b then 1 else 0, [])
  | .float x => (x.toWhole, [])
  | .str s =>
    match Whole.parse (if s.isEmpty then "0" else s) with
    | .ok n => (n, [])
    | .error fault => (0, [.noNumber key fault])
  | s => (0, [.wrongKind key "int" s.kindName])

def toTextsFrom (key : String) (k : Nat) : List Setting → Decoded (List String)
  | [] => ([], [])
  | s :: r =>
    let (first, faults) := s.toText (key ++ "[" ++ toString k ++ "]")
    let (rest, more) := toTextsFrom key (k + 1) r
    (first :: rest, faults ++ more)

/-- A list of texts; one text is cut at its commas. -/
def toTexts (key : String) : Setting → Decoded (List String)
  | .null => ([], [])
  | .str s => (if s.isEmpty then [] else s.splitOn ",", [])
  | .list items => toTextsFrom key 0 items
  | .map [] => ([], [])
  | s => toTextsFrom key 0 [s]

/-- The entries of a section. A time has parts of its own, none of which is a setting. -/
def toSection (key : String) : Setting → Decoded (List (String × Setting))
  | .null => ([], [])
  | .time => ([], [])
  | .map entries => (entries, [])
  | s => ([], [.noSection key s.familyName])

/-- The setting under a key; if none is written just so, one that is written in other
letter case. -/
def under (key : String) (entries : List (String × Setting)) : Setting :=
  match get? key entries with
  | some s => s
  | none => ((entries.find? fun e => Text.spells e.1 key).map (·.2)).getD .null

end Setting
end TableLineage
