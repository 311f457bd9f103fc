import TableLineage.Format.Decimal

/-! Numbers of double precision. A finite one is a whole number of at most 53 bits times
a power of two. A decimal number becomes the nearest of them, the even one of two that are
equally near; and of the decimals that become a number again, the one with the fewest digits
stands for it. -/
namespace TableLineage

inductive Double where
  | nan
  | infinite (negative : Bool)
  | finite (negative : Bool) (mantissa : Nat) (exponent : Int)
  deriving DecidableEq, Repr

namespace Double

def mantissaBound : Nat := 0x20000000000000

def leastExponent : Int := -1074

def greatestExponent : Int := 971

/-! ### The nearest number -/

/-- The whole number next to a quotient, the even one of two that are equally near. -/
def nearest (n d : Nat) : Nat :=
  let q := n / d
  let r := n % d
  if 2 * r < d then q else if d < 2 * r then q + 1 else if q % 2 = 0 then q else q + 1

/-- A quotient divided by a power of two, as a quotient again. -/
def scaled (n d : Nat) (exponent : Int) : Nat × Nat :=
  if 0 ≤ exponent then (n, d * Nat.pow 2 exponent.toNat) else (n * Nat.pow 2 (-exponent).toNat, d)

/-- The exponent with which a quotient has a mantissa of 53 bits, or the least exponent if
it is too small for that. -/
def exponentOf (n d : Nat) : Int :=
  let low : Int := (Nat.log2 n : Int) - Nat.log2 d - 53
  let (a, b) := scaled n d low
  max (if mantissaBound ≤ a / b then low + 1 else low) leastExponent

/-- The number next to a quotient; there is none if it is too great. -/
def ofRatio? (negative : Bool) (n d : Nat) : Option Double :=
  if n = 0 then some (.finite negative 0 leastExponent)
  else
    let e := exponentOf n d
    let (a, b) := scaled n d e
    let m := nearest a b
    let (m, e) := if m = mantissaBound then (m / 2, e + 1) else (m, e)
    if greatestExponent < e then none else some (.finite negative m e)

/-- The number next to a decimal. A decimal far outside of the range needs no arithmetic. -/
def ofDecimal? (negative : Bool) (d : Decimal) : Option Double :=
  let magnitude := d.exponent + (Nat.toDigits 10 d.digits).length
  if d.digits = 0 || magnitude < -400 then some (.finite negative 0 leastExponent)
  else if 400 < magnitude then none
  else if 0 ≤ d.exponent then ofRatio? negative (d.digits * Nat.pow 10 d.exponent.toNat) 1
  else ofRatio? negative d.digits (Nat.pow 10 (-d.exponent).toNat)

def ofInt (n : Int) : Double := (ofRatio? (n < 0) n.natAbs 1).getD (.infinite (n < 0))

/-! ### The shortest decimal -/

/-- What rounds to a number, in quarters of the last place of its mantissa: the least and the
greatest quarter, and whether they belong to it themselves. Below a power of two the numbers
stand twice as close. -/
structure Reach where
  least : Nat
  greatest : Nat
  closed : Bool
  deriving DecidableEq, Repr

def reachOf (mantissa : Nat) (exponent : Int) : Reach where
  least := if 2 * mantissa = mantissaBound && exponent ≠ leastExponent then 4 * mantissa - 1 else 4 * mantissa - 2
  greatest := 4 * mantissa + 2
  closed := mantissa % 2 = 0

/-- A decimal of the place `place` that rounds to the number, if there is one: the one below
or the one above it, whichever is nearer, and the even one if both are equally near. -/
def decimalAt? (mantissa : Nat) (exponent place : Int) : Option Decimal :=
  let reach := reachOf mantissa exponent
  let (unit, quarter) := scaled 1 1 (exponent - 2)
  -- a number of quarters counts `k * lift / per` units of the place
  let (lift, per) :=
    if 0 ≤ place then (quarter, unit * Nat.pow 10 place.toNat) else (quarter * Nat.pow 10 (-place).toNat, unit)
  let low := 4 * mantissa * lift / per
  let high := low + 1
  let isIn (k : Nat) : Bool :=
    if reach.closed then reach.least * lift ≤ k * per && k * per ≤ reach.greatest * lift
    else reach.least * lift < k * per && k * per < reach.greatest * lift
  let below := 4 * mantissa * lift - low * per
  match isIn low, isIn high with
  | true, true => some ⟨if 2 * below < per || (2 * below = per && low % 2 = 0) then low else high, place⟩
  | true, false => some ⟨low, place⟩
  | false, true => some ⟨high, place⟩
  | false, false => none

/-- The first decimal on the way to lower places that rounds to the number. -/
def decimalFrom (mantissa : Nat) (exponent : Int) : Nat → Int → Decimal
  | 0, place => ⟨0, place⟩
  | fuel + 1, place =>
    match decimalAt? mantissa exponent place with
    | some d => d
    | none => decimalFrom mantissa exponent fuel (place - 1)

/-- The shortest decimal that rounds to a number; no number has a digit above the place 309
or none at the place -324. -/
def decimalOf (mantissa : Nat) (exponent : Int) : Decimal :=
  if mantissa = 0 then ⟨0, 0⟩ else decimalFrom mantissa exponent 640 309

/-! ### Texts -/

def sign (negative : Bool) : String := if negative then "-" else ""

def plainText : Double → String
  | .nan => "NaN"
  | .infinite negative => if negative then "-Inf" else "+Inf"
  | .finite negative m e => sign negative ++ (decimalOf m e).plainText

def shortText : Double → String
  | .nan => "NaN"
  | .infinite negative => if negative then "-Inf" else "+Inf"
  | .finite negative m e => sign negative ++ (decimalOf m e).shortText

/-! ### As other kinds -/

def isZero : Double → Bool
  | .finite _ 0 _ => true
  | _ => false

/-- The number without what follows the point, in 64 bits; what does not fit becomes the
least number of 64 bits. -/
def toWhole : Double → Int
  | .finite negative m e =>
    let n := if 0 ≤ e then m * Nat.pow 2 e.toNat else m / Nat.pow 2 (-e).toNat
    if n < Whole.signBound then if negative then -(n : Int) else n else -(Whole.signBound : Int)
  | _ => -(Whole.signBound : Int)

end Double
end TableLineage
