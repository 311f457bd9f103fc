import TableLineage.Format.Double
import TableLineage.Format.Timestamp

/-! What plain text stands for in YAML: nothing, a truth value, a number, a time or, if it
is none of these, a string. -/
namespace TableLineage.Yaml

inductive Plain where
  | null
  | bool (b : Bool)
  | int (n : Int)
  | float (x : Double)
  | time (t : Timestamp)
  | str
  deriving DecidableEq, Repr

namespace Plain

def tag : Plain → String
  | .null => "!!null"
  | .bool _ => "!!bool"
  | .int _ => "!!int"
  | .float _ => "!!float"
  | .time _ => "!!timestamp"
  | .str => "!!str"

def word? (s : String) : Option Plain :=
  if ["", "~", "null", "Null", "NULL"].contains s then some .null
  else if ["true", "True", "TRUE"].contains s then some (.bool true)
  else if ["false", "False", "FALSE"].contains s then some (.bool false)
  else if [".nan", ".NaN", ".NAN"].contains s then some (.float .nan)
  else if [".inf", ".Inf", ".INF", "+.inf", "+.Inf", "+.INF"].contains s then some (.float (.infinite false))
  else if ["-.inf", "-.Inf", "-.INF"].contains s then some (.float (.infinite true))
  else none

def float? (cs : List Char) : Option Double :=
  (Decimal.ofText? cs).bind (Double.ofDecimal? (cs.head? = some '-'))

/-- A whole number in the base that it announces, or behind the mark of a base with a sign
of its own. -/
def int? (cs : List Char) : Option Int :=
  let number? (base : Option Nat) (cs : List Char) : Option Int :=
    Whole.signed64? base cs <|> (Whole.unsigned64? base cs).map Int.ofNat
  match number? none cs, cs with
  | some n, _ => some n
  | none, '0' :: 'b' :: r => number? (some 2) r
  | none, '0' :: 'o' :: r => number? (some 8) r
  | none, _ => none

/-- What text stands for that begins with a digit or a sign. Underscores between digits do
not count. -/
def ofDigits (withTimes : Bool) (cs : List Char) : Plain :=
  match if withTimes then Timestamp.ofText? cs else none with
  | some t => .time t
  | none =>
    let plain := cs.filter (· ≠ '_')
    match int? plain, float? plain with
    | some n, _ => .int n
    | none, some x => .float x
    | none, none => .str

/-- What a text stands for. Times count only if `withTimes` says so. -/
def ofText (withTimes : Bool) (s : String) : Plain :=
  match word? s, s.toList with
  | some p, _ => p
  | none, [] => .null
  | none, c :: r =>
    if c = '.' then
      if Decimal.groupsFit false (c :: r) then ((float? ((c :: r).filter (· ≠ '_'))).map .float).getD .str else .str
    else if c.isDigit || c = '+' || c = '-' then ofDigits withTimes (c :: r)
    else .str

end Plain
end TableLineage.Yaml
