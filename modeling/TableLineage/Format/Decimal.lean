/-! Reading numbers from text. Whole numbers may have a sign and a mark for their
base; decimal numbers may have a point and an exponent. -/
namespace TableLineage

def digitValue? (c : Char) : Option Nat :=
  if '0' ≤ c && c ≤ '9' then some (c.toNat - '0'.toNat)
  else if 'a' ≤ c && c ≤ 'z' then some (c.toNat - 'a'.toNat + 10)
  else if 'A' ≤ c && c ≤ 'Z' then some (c.toNat - 'A'.toNat + 10)
  else none

def digitsValue? (base : Nat) (cs : List Char) : Option Nat :=
  if cs.isEmpty then none
  else
    cs.foldl (fun acc c =>
      match acc, digitValue? c with
      | some n, some d => if d < base then some (n * base + d) else none
      | _, _ => none) (some 0)

namespace Whole

/-- Signed numbers of 64 bits stay below this, and do not go below its negative. -/
def signBound : Nat := 0x8000000000000000

def wordBound : Nat := 0x10000000000000000

def signed : List Char → Bool × List Char
  | '-' :: r => (true, r)
  | '+' :: r => (false, r)
  | r => (false, r)

/-- The base that a number announces, and its digits. A lone zero in front means base eight. -/
def based : List Char → Nat × List Char
  | '0' :: m :: d :: r =>
    if m = 'b' || m = 'B' then (2, d :: r)
    else if m = 'o' || m = 'O' then (8, d :: r)
    else if m = 'x' || m = 'X' then (16, d :: r)
    else (8, m :: d :: r)
  | '0' :: c :: r => (8, c :: r)
  | r => (10, r)

/-- A signed whole number of 64 bits, in a base that it announces if `base` is none. -/
def signed64? (base : Option Nat) (cs : List Char) : Option Int :=
  let (negative, body) := signed cs
  let (base, digits) := match base with
    | some b => (b, body)
    | none => based body
  match digitsValue? base digits with
  | none => none
  | some n =>
    if negative then if n ≤ signBound then some (-(n : Int)) else none
    else if n < signBound then some n else none

/-- A whole number of 64 bits without a sign, in a base that it announces if `base` is none. -/
def unsigned64? (base : Option Nat) (cs : List Char) : Option Nat :=
  let (base, digits) := match base with
    | some b => (b, cs)
    | none => based cs
  match digitsValue? base digits with
  | none => none
  | some n => if n < wordBound then some n else none

/-- Whether underscores stand between digits only; the mark of a base counts as a digit. -/
def underscoresFit (afterDigit : Bool) : List Char → Bool
  | [] => true
  | '_' :: r => afterDigit && (r.head?.map fun c => (digitValue? c).isSome).getD false && underscoresFit false r
  | _ :: r => underscoresFit true r

end Whole

inductive NumberFault where
  | malformed
  | outOfRange
  deriving DecidableEq, Repr

def NumberFault.text : NumberFault → String
  | .malformed => "invalid syntax"
  | .outOfRange => "value out of range"

namespace Whole

/-- Reads digits up to the first that is none, or to where the number leaves 64 bits. -/
def boundedValue (base : Nat) : Nat → List Char → Except NumberFault Nat
  | n, [] => .ok n
  | n, c :: r =>
    match digitValue? c with
    | some d =>
      if base ≤ d then .error .malformed
      else if wordBound ≤ n * base + d then .error .outOfRange
      else boundedValue base (n * base + d) r
    | none => .error .malformed

def withSign (negative : Bool) (n : Nat) : Except NumberFault Int :=
  if negative then if n ≤ signBound then .ok (-(n : Int)) else .error .outOfRange
  else if n < signBound then .ok n else .error .outOfRange

/-- A signed whole number of 64 bits in the base that it announces, with underscores
between its digits if there are any. Whether they fit counts only for a number that is
not too long. -/
def parse (s : String) : Except NumberFault Int :=
  let (negative, body) := signed s.toList
  let (base, digits) := based body
  if body.isEmpty then .error .malformed
  else
    (boundedValue base 0 (digits.filter (· ≠ '_'))).bind fun n =>
      if underscoresFit (base ≠ 10) digits then withSign negative n else .error .malformed

def parseDecimal (s : String) : Except NumberFault Int :=
  let (negative, digits) := signed s.toList
  if digits.isEmpty then .error .malformed else (boundedValue 10 0 digits).bind (withSign negative)

end Whole

def truth? (s : String) : Option Bool :=
  if ["1", "t", "T", "TRUE", "true", "True"].contains s then some true
  else if ["0", "f", "F", "FALSE", "false", "False"].contains s then some false
  else none

/-- A decimal number: its digits without the point, and the power of ten they are scaled by. -/
structure Decimal where
  digits : Nat
  exponent : Int
  deriving DecidableEq, Repr

namespace Decimal

def exponent? : List Char → Option Int
  | [] => some 0
  | e :: r =>
    if e = 'e' || e = 'E' then
      let (negative, digits) := Whole.signed r
      (digitsValue? 10 digits).map fun n => if negative then -(n : Int) else n
    else none

def groupsFit (afterDigit : Bool) : List Char → Bool
  | [] => true
  | c :: r =>
    if c = '_' then afterDigit && (r.head?.map Char.isDigit).getD false && groupsFit false r
    else groupsFit c.isDigit r

def ofText? (cs : List Char) : Option Decimal :=
  let (_, body) := Whole.signed cs
  let whole := body.takeWhile Char.isDigit
  match body.drop whole.length with
  | '.' :: r =>
    let part := r.takeWhile Char.isDigit
    if whole.isEmpty && part.isEmpty then none
    else
      match digitsValue? 10 (whole ++ part), exponent? (r.drop part.length) with
      | some n, some e => some ⟨n, e - part.length⟩
      | _, _ => none
  | r =>
    match digitsValue? 10 whole, exponent? r with
    | some n, some e => some ⟨n, e⟩
    | _, _ => none

/-- The digits of the number with the point in its place, and no zeros after it that add
nothing. -/
def plainText (d : Decimal) : String :=
  let digits := Nat.toDigits 10 d.digits
  if 0 ≤ d.exponent then
    if d.digits = 0 then "0" else String.ofList (digits ++ List.replicate d.exponent.toNat '0')
  else
    let places := (-d.exponent).toNat
    let padded := List.replicate (places + 1 - digits.length) '0' ++ digits
    let whole := padded.take (padded.length - places)
    let part := ((padded.drop (padded.length - places)).reverse.dropWhile (· = '0')).reverse
    String.ofList (if part.isEmpty then whole else whole ++ '.' :: part)

/-- The number with one digit in front of the point and an exponent of two digits at least. -/
def scientificText (d : Decimal) : String :=
  let digits := Nat.toDigits 10 d.digits
  let exponent := d.exponent + digits.length - 1
  let part := (digits.drop 1).reverse.dropWhile (· = '0') |>.reverse
  let size := toString exponent.natAbs
  String.ofList (digits.take 1 ++ (if part.isEmpty then [] else '.' :: part)) ++
    (if exponent < 0 then "e-" else "e+") ++ (if size.length < 2 then "0" ++ size else size)

/-- The number in plain digits from 0.0001 to below a million, and with an exponent outside
of that. -/
def shortText (d : Decimal) : String :=
  let exponent := d.exponent + (Nat.toDigits 10 d.digits).length - 1
  if d.digits ≠ 0 && (exponent < -4 || 6 ≤ exponent) then d.scientificText else d.plainText

end Decimal
end TableLineage
