/-! Dates, and dates with a time of day, as they are written. -/
namespace TableLineage

/-- A date and a time of day. Where no zone is written, it is in universal time; else the
offset to that is kept, in minutes. -/
structure Timestamp where
  year : Nat
  month : Nat
  day : Nat
  hour : Nat
  minute : Nat
  second : Nat
  nanosecond : Nat
  offset : Option Int
  deriving DecidableEq, Repr

namespace Timestamp

def digitsNumber (cs : List Char) : Nat := cs.foldl (fun n c => n * 10 + (c.toNat - '0'.toNat)) 0

def shortNumber? : List Char → Option (Nat × List Char)
  | a :: b :: r =>
    if !a.isDigit then none
    else if b.isDigit then some (digitsNumber [a, b], r)
    else some (digitsNumber [a], b :: r)
  | [a] => if a.isDigit then some (digitsNumber [a], []) else none
  | [] => none

def isLeapYear (y : Nat) : Bool := y % 4 = 0 && (y % 100 ≠ 0 || y % 400 = 0)

def daysIn (month year : Nat) : Nat :=
  if month = 2 then if isLeapYear year then 29 else 28
  else if month = 4 || month = 6 || month = 9 || month = 11 then 30
  else 31

def date? (cs : List Char) : Option (Timestamp × List Char) :=
  let year := cs.takeWhile Char.isDigit
  if year.length ≠ 4 then none
  else
    match cs.drop 4 with
    | '-' :: r =>
      match shortNumber? r with
      | some (month, '-' :: r) =>
        match shortNumber? r with
        | some (day, r) =>
          let y := digitsNumber year
          if 1 ≤ month && month ≤ 12 && 1 ≤ day && day ≤ daysIn month y then
            some (⟨y, month, day, 0, 0, 0, 0, none⟩, r)
          else none
        | none => none
      | _ => none
    | _ => none

def fraction : List Char → Nat × List Char
  | p :: d :: r =>
    if (p = '.' || p = ',') && d.isDigit then
      let digits := (d :: r).takeWhile Char.isDigit
      let first := digits.take 9
      (digitsNumber first * Nat.pow 10 (9 - first.length), (d :: r).drop digits.length)
    else (0, p :: d :: r)
  | r => (0, r)

def clock? (date : Timestamp) (cs : List Char) : Option (Timestamp × List Char) :=
  match shortNumber? cs with
  | some (hour, ':' :: r) =>
    match shortNumber? r with
    | some (minute, ':' :: r) =>
      match shortNumber? r with
      | some (second, r) =>
        if hour < 24 && minute < 60 && second < 60 then
          let (nanosecond, r) := fraction r
          some ({ date with hour, minute, second, nanosecond }, r)
        else none
      | none => none
    | _ => none
  | _ => none

/-- The offset of a time zone, which is all of a text; there is none in universal time. -/
def zone? : List Char → Option (Option Int)
  | ['Z'] => some none
  | [s, a, b, ':', c, d] =>
    if (s = '+' || s = '-') && [a, b, c, d].all Char.isDigit then
      let hours := digitsNumber [a, b]
      let minutes := digitsNumber [c, d]
      let offset : Int := hours * 60 + minutes
      if hours ≤ 24 && minutes ≤ 60 then some (some (if s = '-' then -offset else offset)) else none
    else none
  | _ => none

/-- The date of a text, alone, or with a time after blanks, or with a time and a zone after
a `T`. -/
def ofText? (cs : List Char) : Option Timestamp :=
  match date? cs with
  | none => none
  | some (date, []) => some date
  | some (date, c :: r) =>
    if c = 'T' || c = 't' then
      (clock? date r).bind fun (t, r) => (zone? r).map fun offset => { t with offset }
    else if c = ' ' then
      match clock? date (r.dropWhile (· = ' ')) with
      | some (t, []) => some t
      | _ => none
    else none

def monthNames : List String :=
  ["January", "February", "March", "April", "May", "June", "July", "August", "September", "October", "November",
   "December"]

def literal (t : Timestamp) : String :=
  let zone := match t.offset with
    | none => "time.UTC"
    | some 0 => "time.Local"
    | some _ => "time.Location(\x22\x22)"
  "time.Date(" ++ toString t.year ++ ", time." ++ (monthNames[t.month - 1]?).getD "" ++ ", " ++
    ", ".intercalate ([t.day, t.hour, t.minute, t.second, t.nanosecond].map toString) ++ ", " ++ zone ++ ")"

end Timestamp
end TableLineage
