import TableLineage.Text.Quoted

/-! Texts as bytes, and cutting a text at byte offsets. Bytes that are no part of a character are kept apart. -/
namespace TableLineage.Text

inductive Piece where
  | char (c : Char)
  | stray (b : UInt8)
  deriving DecidableEq, Repr

def bytesOf (cs : List Char) : List UInt8 := cs.flatMap String.utf8EncodeChar

def tailBits? (b : UInt8) : Option Nat := if 0x80 ≤ b && b < 0xc0 then some (b.toNat - 0x80) else none

def withTail (lead : Nat) : List UInt8 → Option Nat
  | [] => some lead
  | b :: r => (tailBits? b).bind fun t => withTail (lead * 64 + t) r

/-- How many bytes go on a character that starts with a byte, the bits in that byte, and
the least value that needs so many. -/
def leadOf? (b : UInt8) : Option (Nat × Nat × Nat) :=
  if b < 0x80 then some (0, b.toNat, 0)
  else if 0xc0 ≤ b && b < 0xe0 then some (1, b.toNat - 0xc0, 0x80)
  else if 0xe0 ≤ b && b < 0xf0 then some (2, b.toNat - 0xe0, 0x800)
  else if 0xf0 ≤ b && b < 0xf8 then some (3, b.toNat - 0xf0, 0x10000)
  else none

def headChar? (b : UInt8) (r : List UInt8) : Option (Char × Nat) :=
  (leadOf? b).bind fun (count, bits, least) =>
    if r.length < count then none
    else
      (withTail bits (r.take count)).bind fun n =>
        if least ≤ n && n.isValidChar then some (Char.ofNat n, count) else none

def piecesFrom : Nat → List UInt8 → List Piece
  | 0, _ => []
  | _ + 1, [] => []
  | fuel + 1, b :: r =>
    match headChar? b r with
    | some (c, count) => .char c :: piecesFrom fuel (r.drop count)
    | none => .stray b :: piecesFrom fuel r

def pieces (bs : List UInt8) : List Piece := piecesFrom bs.length bs

def ofBytes (bs : List UInt8) : String :=
  String.ofList ((pieces bs).map fun
    | .char c => c
    | .stray _ => '\ufffd')

def quoteBytes (bs : List UInt8) : String :=
  let inner := (pieces bs).flatMap fun
    | .char c => quotedChar c
    | .stray b => '\\' :: 'x' :: hex 2 b.toNat
  String.ofList ('\x22' :: inner ++ ['\x22'])

/-- The text after its first `n` bytes; a character that is cut goes with them. -/
def dropBytes : Nat → List Char → List Char
  | _, [] => []
  | n, c :: cs => if n = 0 then c :: cs else dropBytes (n - c.utf8Size) cs

/-- The first `n` bytes of a text; a character that is cut is taken whole. -/
def takeBytes : Nat → List Char → List Char
  | _, [] => []
  | n, c :: cs => if n = 0 then [] else c :: takeBytes (n - c.utf8Size) cs

def slice (cs : List Char) (start stop : Nat) : List Char := takeBytes (stop - start) (dropBytes start cs)

end TableLineage.Text
