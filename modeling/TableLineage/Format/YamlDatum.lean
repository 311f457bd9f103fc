import TableLineage.Format.Base64
import TableLineage.Format.YamlFault
import TableLineage.Format.YamlPlain
import TableLineage.Text.Utf8

/-! What the nodes of a YAML document stand for. -/
namespace TableLineage.Yaml

inductive Datum where
  | null
  | bool (b : Bool)
  | int (n : Int)
  | float (x : Double)
  | time (t : Timestamp)
  | str (s : String)
  | list (items : List Datum)
  | map (entries : List (String × Datum))
  | table (entries : List (Datum × Datum))

namespace Datum

/-! ### Scalars -/

def textTags : List String := ["!!str", "!!bool", "!!int", "!!float", "!!null", "!!timestamp"]

def ofPlain (text : String) : Plain → Datum
  | .null => .null
  | .bool b => .bool b
  | .int n => .int n
  | .float x => .float x
  | .time t => .time t
  | .str => .str text

/-- What a text with a tag stands for. A text has to be what its tag says; but a whole number
with a sign can be one with a point, and tags of other kinds do not say what a text is. -/
def ofScalar (tag text : String) : Except Problem Datum :=
  if tag = "!!binary" then
    match Base64.decode? text.toList with
    | some bs => .ok (.str (Text.ofBytes bs))
    | none => .error .noBase64
  else if tag = "!!str" || !textTags.contains tag then .ok (.str text)
  else
    match Plain.ofText (tag = "!!timestamp") text with
    | .int n =>
      if tag = "!!int" then .ok (.int n)
      else if tag = "!!float" && n < Whole.signBound then .ok (.float (.ofInt n))
      else .error (.wrongTag "!!int" text tag)
    | p => if p.tag = tag then .ok (ofPlain text p) else .error (.wrongTag p.tag text tag)

/-! ### Keys -/

def collection? : Datum → Option String
  | .list _ => some "[]interface \x7b\x7d"
  | .map _ => some "map[string]interface \x7b\x7d"
  | .table _ => some "map[interface \x7b\x7d]interface \x7b\x7d"
  | _ => none

/-- Whether two keys are the same. No number is the same as what is no number. -/
def sameKey : Datum → Datum → Bool
  | .null, .null => true
  | .bool a, .bool b => a = b
  | .int a, .int b => a = b
  | .float a, .float b => (a.isZero && b.isZero) || (a = b && a ≠ .nan)
  | .time a, .time b => a = b
  | .str a, .str b => a = b
  | _, _ => false

def put (key value : Datum) : List (Datum × Datum) → List (Datum × Datum)
  | [] => [(key, value)]
  | e :: r => if sameKey e.1 key then (e.1, value) :: r else e :: put key value r

def keyText : Datum → String
  | .null => "<nil>"
  | .bool b => toString b
  | .int n => toString n
  | .float x => x.shortText
  | .time t => t.literal
  | .str s => s
  | .list _ | .map _ | .table _ => ""

def textEntries (entries : List (Datum × Datum)) : List (String × Datum) := entries.map fun e => (e.1.keyText, e.2)

/-! ### Literals -/

def braced (kind : String) (parts : List String) : String := kind ++ "\x7b" ++ ", ".intercalate parts ++ "\x7d"

def byText (a b : String × String) : Bool := a.1 ≤ b.1

mutual

def literal : Datum → String
  | .null => "interface \x7b\x7d(nil)"
  | .bool b => toString b
  | .int n => if n < Whole.signBound then toString n else "0x" ++ String.ofList (Nat.toDigits 16 n.toNat)
  | .float x => x.shortText
  | .time t => t.literal
  | .str s => Text.quote s
  | .list items => braced "[]interface \x7b\x7d" (literals items)
  | .map entries =>
    braced "map[string]interface \x7b\x7d"
      (((textLiterals entries).mergeSort byText).map fun e => Text.quote e.1 ++ ":" ++ e.2)
  | .table entries =>
    braced "map[interface \x7b\x7d]interface \x7b\x7d"
      (((keyLiterals entries).mergeSort byText).map fun e => e.1 ++ ":" ++ e.2)

def literals : List Datum → List String
  | [] => []
  | d :: r => literal d :: literals r

def textLiterals : List (String × Datum) → List (String × String)
  | [] => []
  | (k, d) :: r => (k, literal d) :: textLiterals r

def keyLiterals : List (Datum × Datum) → List (String × String)
  | [] => []
  | (k, d) :: r => (literal k, literal d) :: keyLiterals r

end

end Datum
end TableLineage.Yaml
