import TableLineage.Format.YamlScalar

/-! Places in a YAML text. -/
namespace TableLineage.Yaml

def isGap (c : Char) : Bool := isBlankMark c || isBreak c

def atGap : List Char → Bool
  | [] => true
  | c :: _ => isGap c

def atDocumentMark (cs : List Char) : Bool := startsDocument cs && atGap (cs.drop 3)

def isAllowed (c : Char) : Bool :=
  let n := c.toNat
  n = 0x09 || n = 0x0a || n = 0x0d || (0x20 ≤ n && n ≤ 0x7e) || n = 0x85 ||
    (0xa0 ≤ n && n ≤ 0xfffd) || 0x10000 ≤ n

/-- A place in the text: what follows, and the line, column and number of characters
before it, all from zero. -/
structure Cursor where
  rest : List Char
  line : Nat
  column : Nat
  index : Nat

namespace Cursor

def start (cs : List Char) : Cursor := ⟨cs, 0, 0, 0⟩

def skip (c : Cursor) (n : Nat) : Cursor := ⟨c.rest.drop n, c.line, c.column + n, c.index + n⟩

def break? : List Char → Option (Char × Nat)
  | '\r' :: '\n' :: _ => some ('\n', 2)
  | c :: _ =>
    if c = '\n' || c = '\r' || c = '\u0085' then some ('\n', 1)
    else if isBreak c then some (c, 1)
    else none
  | [] => none

def skipLine (c : Cursor) : Cursor :=
  match break? c.rest with
  | some (_, n) => ⟨c.rest.drop n, c.line + 1, 0, c.index + n⟩
  | none => c

def skipWhile (c : Cursor) (p : Char → Bool) : Cursor := c.skip (c.rest.takeWhile p).length

end Cursor

end TableLineage.Yaml
