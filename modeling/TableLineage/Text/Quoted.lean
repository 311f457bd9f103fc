import TableLineage.Text.Class

/-! A text between double quotes, with escapes for quotes, backslashes and
whatever does not show. -/
namespace TableLineage.Text

def hexDigit (n : Nat) : Char := Nat.digitChar n

/-- The last `width` hexadecimal digits of `n`, in lower case. -/
def hex : Nat → Nat → List Char
  | 0, _ => []
  | width + 1, n => hex width (n / 16) ++ [hexDigit (n % 16)]

def escapeLetter? (c : Char) : Option Char :=
  match c.toNat with
  | 7 => some 'a'
  | 8 => some 'b'
  | 9 => some 't'
  | 10 => some 'n'
  | 11 => some 'v'
  | 12 => some 'f'
  | 13 => some 'r'
  | _ => none

def quotedChar (c : Char) : List Char :=
  if c = '\x22' || c = '\\' then ['\\', c]
  else if isPrintable c then [c]
  else
    match escapeLetter? c with
    | some l => ['\\', l]
    | none =>
      let n := c.toNat
      if n < 0x80 then '\\' :: 'x' :: hex 2 n
      else if n < 0x10000 then '\\' :: 'u' :: hex 4 n
      else '\\' :: 'U' :: hex 8 n

def quotedText (cs : List Char) : List Char := '\x22' :: cs.flatMap quotedChar ++ ['\x22']

def quote (s : String) : String := String.ofList (quotedText s.toList)

end TableLineage.Text
