/-! White space in the sense of the Unicode property, and trimming by it. -/
namespace TableLineage.Text

def isBlank (c : Char) : Bool :=
  let n := c.toNat
  (9 ≤ n && n ≤ 13) || n == 0x20 || n == 0x85 || n == 0xA0 || n == 0x1680 ||
    (0x2000 ≤ n && n ≤ 0x200A) || n == 0x2028 || n == 0x2029 || n == 0x202F || n == 0x205F || n == 0x3000

def dropTailWhile (p : Char → Bool) (cs : List Char) : List Char := (cs.reverse.dropWhile p).reverse

def trimmed (s : String) : String := String.ofList (dropTailWhile isBlank (s.toList.dropWhile isBlank))

/-- Without `lead` at the start, if it stands there. -/
def withoutLead (lead cs : List Char) : List Char := if lead.isPrefixOf cs then cs.drop lead.length else cs

def withoutTail (tail cs : List Char) : List Char :=
  if tail.isSuffixOf cs then cs.take (cs.length - tail.length) else cs

end TableLineage.Text
