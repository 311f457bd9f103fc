/-! Bytes written with 64 signs, four signs for three bytes. The last four are filled up
with equals signs, and line ends in between do not count. -/
namespace TableLineage.Base64

def bits? (c : Char) : Option Nat :=
  if 'A' ≤ c && c ≤ 'Z' then some (c.toNat - 'A'.toNat)
  else if 'a' ≤ c && c ≤ 'z' then some (c.toNat - 'a'.toNat + 26)
  else if '0' ≤ c && c ≤ '9' then some (c.toNat - '0'.toNat + 52)
  else if c = '+' then some 62
  else if c = '/' then some 63
  else none

def groupBytes (count a b c d : Nat) : List UInt8 :=
  let n := ((a * 64 + b) * 64 + c) * 64 + d
  [UInt8.ofNat (n / 65536), UInt8.ofNat (n / 256), UInt8.ofNat n].take count

def decodeFrom : List Char → Option (List UInt8)
  | [] => some []
  | [a, b, '=', '='] =>
    match bits? a, bits? b with
    | some a, some b => some (groupBytes 1 a b 0 0)
    | _, _ => none
  | [a, b, c, '='] =>
    match bits? a, bits? b, bits? c with
    | some a, some b, some c => some (groupBytes 2 a b c 0)
    | _, _, _ => none
  | a :: b :: c :: d :: r =>
    match bits? a, bits? b, bits? c, bits? d with
    | some a, some b, some c, some d => (decodeFrom r).map (groupBytes 3 a b c d ++ ·)
    | _, _, _, _ => none
  | _ => none

def decode? (cs : List Char) : Option (List UInt8) := decodeFrom (cs.filter fun c => c ≠ '\n' && c ≠ '\r')

end TableLineage.Base64
