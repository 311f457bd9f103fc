import TableLineage.Format.Decimal
import TableLineage.Format.JsonValue

/-! Reading JSON. The reader takes the first value of a text; what follows it is left
alone. A fault names the first byte that cannot go on, and what was expected there. -/
namespace TableLineage

inductive JsonContext where
  | value
  | key
  | afterKey
  | afterField
  | afterItem
  | inString
  | inEscape
  | inHexEscape
  | inNumber
  | afterPoint
  | inExponent
  | tooDeep
  | inWord (word : String) (expected : Char)
  deriving DecidableEq, Repr

def JsonContext.text : JsonContext → String
  | .value => "looking for beginning of value"
  | .key => "looking for beginning of object key string"
  | .afterKey => "after object key"
  | .afterField => "after object key:value pair"
  | .afterItem => "after array element"
  | .inString => "in string literal"
  | .inEscape => "in string escape code"
  | .inHexEscape => "in \\u hexadecimal character escape"
  | .inNumber => "in numeric literal"
  | .afterPoint => "after decimal point in numeric literal"
  | .inExponent => "in exponent of numeric literal"
  | .tooDeep => "exceeded max depth"
  | .inWord word expected => "in literal " ++ word ++ " (expecting '" ++ expected.toString ++ "')"

inductive JsonFault where
  | nothing
  | cutShort
  | unexpected (c : Char) (context : JsonContext)
  deriving DecidableEq, Repr

namespace JsonFault

def firstByte (c : Char) : Char :=
  match String.utf8EncodeChar c with
  | b :: _ => Char.ofNat b.toNat
  | [] => c

def quotedByte (c : Char) : String :=
  let b := firstByte c
  if b = '\x27' then "'\\''"
  else if b = '\x22' then "'\x22'"
  else "'" ++ String.ofList (Text.quotedChar b) ++ "'"

def message : JsonFault → String
  | .nothing => "EOF"
  | .cutShort => "unexpected EOF"
  | .unexpected c context => "invalid character " ++ quotedByte c ++ " " ++ context.text

end JsonFault

namespace JsonReader

/-- What a part of the reader gives back: a value and the rest of the text. -/
abbrev Reading (α : Type) := Except JsonFault (α × List Char)

def isBlank (c : Char) : Bool := c = ' ' || c = '\t' || c = '\r' || c = '\n'

def skipBlanks (cs : List Char) : List Char := cs.dropWhile isBlank

def faultAt (context : JsonContext) : List Char → JsonFault
  | [] => .cutShort
  | c :: _ => .unexpected c context

/-! ### Strings -/

def hexValue? (c : Char) : Option Nat := (digitValue? c).bind fun d => if d < 16 then some d else none

def unit? (a b c d : Char) : Option Nat := do
  let a ← hexValue? a
  let b ← hexValue? b
  let c ← hexValue? c
  let d ← hexValue? d
  return ((a * 16 + b) * 16 + c) * 16 + d

def unitFault (cs : List Char) : JsonFault :=
  faultAt .inHexEscape ((cs.take 4).dropWhile fun c => (hexValue? c).isSome)

def isHigh (u : Nat) : Bool := 0xd800 ≤ u && u < 0xdc00

def isLow (u : Nat) : Bool := 0xdc00 ≤ u && u < 0xe000

def loneUnit (u : Nat) : Char := if isHigh u || isLow u then '\ufffd' else Char.ofNat u

def pairedUnits (high low : Nat) : Char := Char.ofNat (0x10000 + (high - 0xd800) * 0x400 + (low - 0xdc00))

def escaped? (c : Char) : Option Char :=
  if c = '\x22' || c = '\\' || c = '/' then some c
  else if c = 'b' then some '\x08'
  else if c = 'f' then some '\x0c'
  else if c = 'n' then some '\n'
  else if c = 'r' then some '\r'
  else if c = 't' then some '\t'
  else none

/-- A part of a string: a character, or a code unit that was written as a number. -/
inductive StringPart where
  | char (c : Char)
  | unit (u : Nat)
  deriving DecidableEq, Repr

/-- Two units that belong together are one character. -/
def assemble : List StringPart → List Char
  | [] => []
  | .char c :: r => c :: assemble r
  | .unit u :: .unit v :: r =>
    if isHigh u && isLow v then pairedUnits u v :: assemble r else loneUnit u :: assemble (.unit v :: r)
  | .unit u :: r => loneUnit u :: assemble r

def cons (p : StringPart) (r : Reading (List StringPart)) : Reading (List StringPart) :=
  r.map fun (ps, rest) => (p :: ps, rest)

def readParts : List Char → Reading (List StringPart)
  | [] => .error .cutShort
  | '\x22' :: r => .ok ([], r)
  | '\\' :: 'u' :: a :: b :: c :: d :: r =>
    match unit? a b c d with
    | none => .error (unitFault [a, b, c, d])
    | some u => cons (.unit u) (readParts r)
  | '\\' :: 'u' :: r => .error (unitFault r)
  | '\\' :: c :: r =>
    match escaped? c with
    | some e => cons (.char e) (readParts r)
    | none => .error (.unexpected c .inEscape)
  | ['\\'] => .error .cutShort
  | c :: r => if c.toNat < 0x20 then .error (.unexpected c .inString) else cons (.char c) (readParts r)

def readString (cs : List Char) : Reading String :=
  (readParts cs).map fun (ps, rest) => (String.ofList (assemble ps), rest)

/-! ### Numbers and words -/

def digits (context : JsonContext) (cs : List Char) : Reading (List Char) :=
  match cs.takeWhile Char.isDigit with
  | [] => .error (faultAt context cs)
  | ds => .ok (ds, cs.dropWhile Char.isDigit)

def wholePart : List Char → Reading (List Char)
  | '0' :: r => .ok (['0'], r)
  | cs => digits .inNumber cs

def fractionPart : List Char → Reading (List Char)
  | '.' :: r => (digits .afterPoint r).map fun (ds, rest) => ('.' :: ds, rest)
  | cs => .ok ([], cs)

def exponentPart : List Char → Reading (List Char)
  | e :: r =>
    if e = 'e' || e = 'E' then
      match r with
      | s :: r' =>
        if s = '+' || s = '-' then (digits .inExponent r').map fun (ds, rest) => (e :: s :: ds, rest)
        else (digits .inExponent r).map fun (ds, rest) => (e :: ds, rest)
      | [] => .error .cutShort
    else .ok ([], e :: r)
  | [] => .ok ([], [])

def unsignedNumber (cs : List Char) : Reading (List Char) :=
  (wholePart cs).bind fun (w, cs) =>
    (fractionPart cs).bind fun (f, cs) =>
      (exponentPart cs).map fun (e, cs) => (w ++ f ++ e, cs)

def readNumber : List Char → Reading JsonValue
  | '-' :: r => (unsignedNumber r).map fun (ds, rest) => (.num (String.ofList ('-' :: ds)), rest)
  | cs => (unsignedNumber cs).map fun (ds, rest) => (.num (String.ofList ds), rest)

def readWord (word : String) (v : JsonValue) : List Char → List Char → Reading JsonValue
  | [], cs => .ok (v, cs)
  | _ :: _, [] => .error .cutShort
  | w :: ws, c :: cs => if c = w then readWord word v ws cs else .error (.unexpected c (.inWord word w))

/-! ### Values -/

def maxDepth : Nat := 10000

mutual

def readValue : Nat → Nat → List Char → Reading JsonValue
  | 0, _, _ => .error .cutShort
  | fuel + 1, depth, cs =>
    match skipBlanks cs with
    | [] => .error .cutShort
    | c :: r =>
      if c = '\x7b' then
        if depth ≥ maxDepth then .error (.unexpected c .tooDeep)
        else
          match skipBlanks r with
          | '\x7d' :: r => .ok (.obj [], r)
          | r => (readFields fuel (depth + 1) r).map fun (fs, rest) => (.obj fs, rest)
      else if c = '[' then
        if depth ≥ maxDepth then .error (.unexpected c .tooDeep)
        else
          match skipBlanks r with
          | ']' :: r => .ok (.arr [], r)
          | r => (readItems fuel (depth + 1) r).map fun (vs, rest) => (.arr vs, rest)
      else if c = '\x22' then (readString r).map fun (s, rest) => (.str s, rest)
      else if c = 't' then readWord "true" (.bool true) "rue".toList r
      else if c = 'f' then readWord "false" (.bool false) "alse".toList r
      else if c = 'n' then readWord "null" .null "ull".toList r
      else if c = '-' || c.isDigit then readNumber (c :: r)
      else .error (.unexpected c .value)

def readItems : Nat → Nat → List Char → Reading (List JsonValue)
  | 0, _, _ => .error .cutShort
  | fuel + 1, depth, cs =>
    match readValue fuel depth cs with
    | .error e => .error e
    | .ok (v, r) =>
      match skipBlanks r with
      | ',' :: r => (readItems fuel depth r).map fun (vs, rest) => (v :: vs, rest)
      | ']' :: r => .ok ([v], r)
      | r => .error (faultAt .afterItem r)

def readFields : Nat → Nat → List Char → Reading (List (String × JsonValue))
  | 0, _, _ => .error .cutShort
  | fuel + 1, depth, cs =>
    match skipBlanks cs with
    | '\x22' :: r =>
      match readString r with
      | .error e => .error e
      | .ok (k, r) =>
        match skipBlanks r with
        | ':' :: r =>
          match readValue fuel depth r with
          | .error e => .error e
          | .ok (v, r) =>
            let field := (k, v)
            match skipBlanks r with
            | ',' :: r => (readFields fuel depth r).map fun (fs, rest) => (field :: fs, rest)
            | '\x7d' :: r => .ok ([field], r)
            | r => .error (faultAt .afterField r)
        | r => .error (faultAt .afterKey r)
    | r => .error (faultAt .key r)

end

end JsonReader

/-- The first value of a text. Every step of the reader takes a character. -/
def JsonValue.first (text : String) : Except JsonFault JsonValue :=
  let cs := text.toList
  if (JsonReader.skipBlanks cs).isEmpty then .error .nothing
  else (JsonReader.readValue (2 * cs.length + 2) 0 cs).map (·.1)

end TableLineage
