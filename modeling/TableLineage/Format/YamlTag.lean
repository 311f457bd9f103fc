import TableLineage.Format.Decimal
import TableLineage.Format.YamlCursor
import TableLineage.Format.YamlFault
import TableLineage.Text.Utf8

/-! Names, tags and directives in a YAML text. A tag is a handle and what stands behind it;
a directive at the start of a text gives the version of the language, or what a handle
stands for. -/
namespace TableLineage.Yaml

def isNameChar (c : Char) : Bool := c.isAlphanum || c = '_' || c = '-'

/-! ### Addresses -/

def escapedByte? : List Char → Option (Nat × List Char)
  | '%' :: a :: b :: r => (digitsValue? 16 [a, b]).map fun n => (n, r)
  | _ => none

/-- How many bytes a character has that starts with a byte; none has if it starts none. -/
def widthOf (lead : Nat) : Nat :=
  if lead < 0x80 then 1
  else if lead < 0xc0 then 0
  else if lead < 0xe0 then 2
  else if lead < 0xf0 then 3
  else if lead < 0xf8 then 4
  else 0

def escapedTail : Nat → List Char → Except Problem (List UInt8 × List Char)
  | 0, cs => .ok ([], cs)
  | n + 1, cs =>
    match escapedByte? cs with
    | none => .error .noEscapedByte
    | some (b, r) =>
      if b < 0x80 || 0xc0 ≤ b then .error .wrongTailByte
      else (escapedTail n r).map fun (bs, r) => (UInt8.ofNat b :: bs, r)

def escapedChar (cs : List Char) : Except Problem (List UInt8 × List Char) :=
  match escapedByte? cs with
  | none => .error .noEscapedByte
  | some (b, r) =>
    if widthOf b = 0 then .error .wrongLeadByte
    else (escapedTail (widthOf b - 1) r).map fun (bs, r) => (UInt8.ofNat b :: bs, r)

def isAddressChar (c : Char) : Bool := isNameChar c || ";/?:@&=+$,.!~*\x27()[]".toList.contains c

/-- The address at the head of a text, in bytes, and what follows it. -/
def addressFrom : Nat → List Char → Except Problem (List UInt8 × List Char)
  | 0, cs => .ok ([], cs)
  | _ + 1, [] => .ok ([], [])
  | fuel + 1, c :: r =>
    if c = '%' then
      (escapedChar (c :: r)).bind fun (bs, r) => (addressFrom fuel r).map fun (more, r) => (bs ++ more, r)
    else if isAddressChar c then (addressFrom fuel r).map fun (more, r) => (UInt8.ofNat c.toNat :: more, r)
    else .ok ([], c :: r)

def address (lead : List Char) (cs : List Char) : Except Problem (String × List Char) :=
  (addressFrom cs.length cs).map fun (bs, r) => (Text.ofBytes (Text.bytesOf lead ++ bs), r)

def someAddress (cs : List Char) : Except Problem (String × List Char) :=
  match address [] cs with
  | .ok (a, r) => if r.length = cs.length then .error .noTagAddress else .ok (a, r)
  | .error p => .error p

/-! ### Tags -/

structure TagName where
  handle : String
  suffix : String
  deriving DecidableEq, Repr

/-- The handle at the head of a text that begins with an exclamation mark: the letters
behind that, and a second mark if there is one. -/
def handleOf (cs : List Char) : List Char :=
  let word := (cs.drop 1).takeWhile isNameChar
  if (cs.drop (1 + word.length)).head? = some '!' then '!' :: word ++ ['!'] else '!' :: word

def isClosedHandle (handle : List Char) : Bool := 1 < handle.length && handle.getLast? = some '!'

def openTag (cs : List Char) : Except Problem (TagName × List Char) :=
  if cs.drop 1 |>.head?.any (· = '<') then
    (someAddress (cs.drop 2)).bind fun (a, r) =>
      if r.head? = some '>' then .ok (⟨"", a⟩, r.drop 1) else .error .noTagEnd
  else
    let handle := handleOf cs
    let r := cs.drop handle.length
    if isClosedHandle handle then (someAddress r).map fun (a, r) => (⟨String.ofList handle, a⟩, r)
    else (address (handle.drop 1) r).map fun (a, r) => (if a.isEmpty then ⟨"", "!"⟩ else ⟨"!", a⟩, r)

def tagOf (cs : List Char) : Except Problem (TagName × List Char) :=
  (openTag cs).bind fun (t, r) => if atGap r then .ok (t, r) else .error .noBlankOrLineEnd

/-! ### Directives -/

inductive Directive where
  | version (major minor : Nat)
  | handle (handle lead : String)
  deriving DecidableEq, Repr

def versionNumber (cs : List Char) : Except Problem (Nat × List Char) :=
  let digits := cs.takeWhile Char.isDigit
  match digitsValue? 10 digits with
  | none => .error .noVersionNumber
  | some n => if 2 < digits.length then .error .longVersionNumber else .ok (n, cs.drop digits.length)

def version (cs : List Char) : Except Problem (Directive × List Char) :=
  (versionNumber (cs.dropWhile isBlankMark)).bind fun (major, r) =>
    if r.head? = some '.' then (versionNumber (r.drop 1)).map fun (minor, r) => (.version major minor, r)
    else .error .noVersionPoint

def handleRule (cs : List Char) : Except Problem (Directive × List Char) :=
  let cs := cs.dropWhile isBlankMark
  let handle := handleOf cs
  let r := cs.drop handle.length
  if cs.head? ≠ some '!' then .error .noTagMark
  else if 1 < handle.length && !isClosedHandle handle then .error .noTagMark
  else if !(r.head?.any isBlankMark) then .error .noBlank
  else
    (someAddress (r.dropWhile isBlankMark)).bind fun (a, r) =>
      if atGap r then .ok (.handle (String.ofList handle) a, r) else .error .noBlankOrLineEnd

def directiveOf (cs : List Char) : Except Problem (Directive × List Char) :=
  let name := cs.takeWhile isNameChar
  let r := cs.drop name.length
  let read : Except Problem (Directive × List Char) :=
    if name.isEmpty then .error .noDirectiveName
    else if !atGap r then .error .oddDirectiveName
    else if name = "YAML".toList then version r
    else if name = "TAG".toList then handleRule r
    else .error .unknownDirective
  read.bind fun (d, r) =>
    let r := r.dropWhile isBlankMark
    let r := if r.head? = some '#' then r.dropWhile (!isBreak ·) else r
    if r.isEmpty || r.head?.any isBreak then .ok (d, r) else .error .noLineEnd

end TableLineage.Yaml
