import TableLineage.Format.Decimal
import TableLineage.Text.Utf8

/-! The target of a request: a path and a query, in which bytes may stand as a percent
sign and two hexadecimal digits. -/
namespace TableLineage.Url

def hexByte? (a b : UInt8) : Option UInt8 := do
  let a ← digitValue? (Char.ofNat a.toNat)
  let b ← digitValue? (Char.ofNat b.toNat)
  if a < 16 && b < 16 then return UInt8.ofNat (a * 16 + b) else none

def percent : UInt8 := 0x25

def plus : UInt8 := 0x2b

def blank : UInt8 := 0x20

/-- The bytes that are meant; nothing if a percent sign stands without its digits. In a
query a plus sign means a blank. -/
def unescape? (inQuery : Bool) : List UInt8 → Option (List UInt8)
  | [] => some []
  | b :: r =>
    if b = percent then
      match r with
      | x :: y :: r => (hexByte? x y).bind fun c => (unescape? inQuery r).map (c :: ·)
      | _ => none
    else (unescape? inQuery r).map ((if inQuery && b = plus then blank else b) :: ·)

def isPlain (b : UInt8) : Bool :=
  let c := Char.ofNat b.toNat
  c.isAlphanum || "-_.~$&+,/:;=@".toList.contains c

def escapeByte (b : UInt8) : List UInt8 :=
  if isPlain b then [b]
  else Text.bytesOf ('%' :: (Text.hex 2 b.toNat).map Char.toUpper)

def escape (bs : List UInt8) : List UInt8 := bs.flatMap escapeByte

/-- The path that is matched against routes: with its escapes undone, unless that loses
something. -/
def routePath (path : List UInt8) : List UInt8 :=
  match unescape? false path with
  | some bs => if escape bs = path then bs else path
  | none => path

def cutAt (b : UInt8) (bs : List UInt8) : List UInt8 × List UInt8 :=
  (bs.takeWhile (· ≠ b), (bs.dropWhile (· ≠ b)).drop 1)

def splitAt (b : UInt8) : List UInt8 → List (List UInt8)
  | [] => [[]]
  | x :: r =>
    if x = b then [] :: splitAt b r
    else
      match splitAt b r with
      | s :: ss => (x :: s) :: ss
      | [] => [[x]]

def question : UInt8 := 0x3f

def ampersand : UInt8 := 0x26

def semicolon : UInt8 := 0x3b

def equalsSign : UInt8 := 0x3d

structure Target where
  path : List UInt8
  query : List UInt8
  deriving DecidableEq, Repr

def Target.ofText (s : String) : Target :=
  let (path, query) := cutAt question (Text.bytesOf s.toList)
  ⟨path, query⟩

/-- A setting of a query; nothing if it cannot be read. -/
def setting? (bs : List UInt8) : Option (List UInt8 × List UInt8) :=
  if bs.isEmpty || bs.contains semicolon then none
  else
    let (key, value) := cutAt equalsSign bs
    (unescape? true key).bind fun k => (unescape? true value).map fun v => (k, v)

def Target.value (t : Target) (key : String) : List UInt8 :=
  let found := ((splitAt ampersand t.query).filterMap setting?).find? fun s => s.1 = Text.bytesOf key.toList
  (found.map (·.2)).getD []

end TableLineage.Url
