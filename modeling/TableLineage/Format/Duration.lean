import TableLineage.Format.Decimal
import TableLineage.Text.Quoted

/-! Durations as numbers with units, such as an hour and a half in `1h30m`. -/
namespace TableLineage

inductive DurationFault where
  | invalid (text : String)
  | missingUnit (text : String)
  | unknownUnit (unit text : String)
  deriving DecidableEq, Repr

namespace Duration

/-- A text in double quotes; what is not ASCII stands there byte by byte. -/
def quote (s : String) : String :=
  let inner := s.toList.flatMap fun c =>
    if 0x80 ≤ c.toNat || c.toNat < 0x20 then
      (String.utf8EncodeChar c).flatMap fun b => '\\' :: 'x' :: Text.hex 2 b.toNat
    else if c = '\x22' || c = '\\' then ['\\', c]
    else [c]
  String.ofList ('\x22' :: inner ++ ['\x22'])

end Duration

def DurationFault.message : DurationFault → String
  | .invalid text => "time: invalid duration " ++ Duration.quote text
  | .missingUnit text => "time: missing unit in duration " ++ Duration.quote text
  | .unknownUnit unit text => "time: unknown unit " ++ Duration.quote unit ++ " in duration " ++ Duration.quote text

namespace Duration

def unit? (name : String) : Option Nat :=
  match name with
  | "ns" => some 1
  | "us" | "µs" | "μs" => some 1000
  | "ms" => some 1000000
  | "s" => some 1000000000
  | "m" => some 60000000000
  | "h" => some 3600000000000
  | _ => none

def isNumberChar (c : Char) : Bool := c = '.' || c.isDigit

def sumFrom (text : String) : Nat → Nat → List Char → Except DurationFault Nat
  | 0, total, _ => .ok total
  | _ + 1, total, [] => .ok total
  | fuel + 1, total, c :: r =>
    let cs := c :: r
    let whole := cs.takeWhile Char.isDigit
    let cs := cs.drop whole.length
    let part := if cs.head? = some '.' then (cs.drop 1).takeWhile Char.isDigit else []
    let rest := if cs.head? = some '.' then cs.drop (1 + part.length) else cs
    let value := (digitsValue? 10 whole).getD 0
    if (whole.isEmpty && part.isEmpty) || Whole.signBound < value then .error (.invalid text)
    else
      let name := rest.takeWhile fun d => !isNumberChar d
      if name.isEmpty then .error (.missingUnit text)
      else
        match unit? (String.ofList name) with
        | none => .error (.unknownUnit (String.ofList name) text)
        | some unit =>
          let nanos := value * unit + (digitsValue? 10 part).getD 0 * unit / Nat.pow 10 part.length
          if Whole.signBound < total + nanos then .error (.invalid text)
          else sumFrom text fuel (total + nanos) (rest.drop name.length)

def parse (text : String) : Except DurationFault Int :=
  let (negative, body) := Whole.signed text.toList
  if body = ['0'] then .ok 0
  else if body.isEmpty then .error (.invalid text)
  else
    match sumFrom text (body.length + 1) 0 body with
    | .error e => .error e
    | .ok n => if negative then .ok (-(n : Int)) else if n < Whole.signBound then .ok n else .error (.invalid text)

end Duration
end TableLineage
