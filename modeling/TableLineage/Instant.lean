import TableLineage.Text.Quoted

/-! Instants and their texts in universal time. -/
namespace TableLineage

/-- Nanoseconds since the start of 1970. -/
structure Instant where
  nanos : Int
  deriving DecidableEq, Repr, Inhabited

namespace Instant

def ofSeconds (n : Int) : Instant := ⟨n * 1000000000⟩

def ofMillis (n : Int) : Instant := ⟨n * 1000000⟩

def seconds (t : Instant) : Int := t.nanos.fdiv 1000000000

def subsecond (t : Instant) : Nat := (t.nanos.fmod 1000000000).toNat

def add (t : Instant) (seconds : Int) : Instant := ⟨t.nanos + seconds * 1000000000⟩

structure Date where
  year : Int
  month : Nat
  day : Nat
  deriving DecidableEq, Repr

/-- The date of a day, counted from the first of January 1970. Years are counted from
March, so that a leap day is the last of its year, and in eras of 400 years. -/
def dateOfDay (day : Int) : Date :=
  let shifted := day + 719468
  let era := shifted.fdiv 146097
  let inEra := (shifted - era * 146097).toNat
  let yearInEra := (inEra - inEra / 1460 + inEra / 36524 - inEra / 146096) / 365
  let inYear := inEra - (365 * yearInEra + yearInEra / 4 - yearInEra / 100)
  let month := (5 * inYear + 2) / 153
  let year := (yearInEra : Int) + era * 400
  ⟨if month < 10 then year else year + 1, if month < 10 then month + 3 else month - 9,
   inYear - (153 * month + 2) / 5 + 1⟩

def date (t : Instant) : Date := dateOfDay (t.seconds.fdiv 86400)

def secondOfDay (t : Instant) : Nat := (t.seconds.fmod 86400).toNat

/-- The last `width` decimal digits of `n`. -/
def digits : Nat → Nat → List Char
  | 0, _ => []
  | width + 1, n => digits width (n / 10) ++ [Text.hexDigit (n % 10)]

def dateText (t : Instant) : List Char :=
  let d := t.date
  digits 4 d.year.toNat ++ '-' :: digits 2 d.month ++ '-' :: digits 2 d.day

def clockText (t : Instant) : List Char :=
  let s := t.secondOfDay
  digits 2 (s / 3600) ++ ':' :: digits 2 (s / 60 % 60) ++ ':' :: digits 2 (s % 60)

/-- The part after the seconds, without zeros at its end. -/
def fractionText (t : Instant) : List Char :=
  match ((digits 9 t.subsecond).reverse.dropWhile (· = '0')).reverse with
  | [] => []
  | ds => '.' :: ds

def shortText (t : Instant) : String := String.ofList (t.dateText ++ 'T' :: t.clockText ++ ['Z'])

def fullText (t : Instant) : String := String.ofList (t.dateText ++ 'T' :: t.clockText ++ t.fractionText ++ ['Z'])

def milliText (t : Instant) : String :=
  String.ofList (t.dateText ++ 'T' :: t.clockText ++ '.' :: digits 3 (t.subsecond / 1000000) ++ ['Z'])

def plainText (t : Instant) : String := String.ofList (t.dateText ++ ' ' :: t.clockText)

end Instant
end TableLineage
