import TableLineage.Text.Class

/-! How many columns a character takes on a terminal: none for controls and marks
that combine, two for the wide ones, one for all others. -/
namespace TableLineage.Text

/-- Characters above the Latin blocks that take no column. -/
def zeroWidthRuns : List Nat := [
  768, 112, 275, 5, 647, 1, 219, 9, 1036, 1, 3, 1, 238, 1, 12, 2, 1627, 3, 1195, 4, 624, 1, 48, 31, 156, 9, 588, 64,
  523, 5, 24, 7, 59, 6, 96, 33, 3070, 3, 238, 32, 665, 2, 30164, 4, 1, 10, 32, 2, 80, 2, 494, 18, 21806, 16, 207, 1,
  249, 3, 2, 2, 509, 1, 376, 5, 2864, 2, 153, 11, 49, 4, 890, 2, 57, 2, 41, 7, 3, 5, 22395, 5, 25611, 46, 2, 23, 542,
  5, 3, 6, 8, 8, 2, 7, 30, 4, 148, 3, 3515, 7, 1, 17, 2, 7, 1, 2, 1, 5, 100, 1, 2112, 7]

def wideRuns : List Nat := [
  4352, 96, 4538, 2, 13, 2, 190, 4, 3, 1, 2, 1, 521, 2, 21, 2, 50, 12, 43, 1, 19, 1, 13, 1, 8, 2, 17, 2, 5, 2, 8, 1,
  5, 1, 21, 1, 7, 2, 1, 1, 4, 1, 2, 1, 7, 1, 4, 2, 28, 1, 35, 1, 1, 1, 4, 3, 1, 1, 61, 3, 24, 1, 14, 1, 859, 2, 51, 1,
  4, 1, 810, 26, 1, 89, 12, 214, 26, 79, 2, 86, 2, 103, 5, 43, 1, 94, 1, 84, 11, 48, 1, 40, 8, 7024, 64, 22157, 3, 55,
  1177, 29, 643, 11172, 8540, 512, 784, 10, 22, 35, 1, 19, 1, 4, 149, 96, 127, 7, 28665, 5, 11, 2, 14, 6136, 8, 1238,
  42, 9, 8935, 4, 1, 7, 1, 2, 1, 291, 15, 1, 29, 3, 2, 1, 14, 4, 8, 396, 15624, 1, 202, 1, 190, 1, 2, 10, 101, 3, 13,
  44, 4, 9, 7, 2, 14, 6, 154, 33, 12, 9, 1, 70, 1, 22, 12, 43, 4, 5, 12, 17, 3, 1, 3, 71, 1, 1, 1, 187, 2, 63, 13, 4,
  1, 24, 18, 1, 26, 2, 13, 1, 86, 85, 48, 70, 6, 1, 3, 3, 2, 3, 4, 4, 11, 2, 7, 9, 227, 12, 4, 1, 283, 47, 1, 10, 1,
  185, 112, 13, 3, 9, 7, 46, 1, 7, 8, 14, 4, 9, 7, 9, 1287, 65534, 2, 65534]

def charWidth (c : Char) : Nat :=
  let n := c.toNat
  if n < 0x20 || (0x7f ≤ n && n ≤ 0x9f) || n = 0xad then 0
  else if n < 0x300 then 1
  else if inRuns zeroWidthRuns n then 0
  else if inRuns wideRuns n then 2
  else 1

/-! ### Escapes -/

/-- Whether a sequence that an escape character began is complete. What the first bracket in
it is says what ends it; that of a link has an end of two characters. -/
def endsEscape (seq : List Char) : Bool :=
  if ['\x1b', ']', '8', ';'].isPrefixOf seq then ['\x1b', '\\'].isSuffixOf seq
  else
    match seq.find? fun c => c = '[' || c = ']' with
    | some c => seq.getLast? = some (if c = '[' then 'm' else '\\')
    | none => false

/-- What is left of a sequence behind one more of its characters: nothing if that ends it. -/
def escapeAfter (seq : List Char) (c : Char) : Option (List Char) :=
  if endsEscape (seq ++ [c]) then none else some (seq ++ [c])

def widthFrom (seq : Option (List Char)) : List Char → Nat
  | [] => 0
  | c :: r =>
    match seq with
    | some q => widthFrom (escapeAfter q c) r
    | none => if c = '\x1b' then widthFrom (some [c]) r else charWidth c + widthFrom none r

/-- How many columns a line takes. Sequences that an escape character begins take none. -/
def width (cs : List Char) : Nat := widthFrom none cs

/-- The longest line of a text that is not all read: `current` columns of the line are known,
and those of the longest line before it. -/
def longestFrom (seq : Option (List Char)) (current longest : Nat) : List Char → Nat
  | [] => max current longest
  | c :: r =>
    match seq with
    | some q => longestFrom (escapeAfter q c) current longest r
    | none =>
      if c = '\x1b' then longestFrom (some [c]) current longest r
      else if c = '\n' then longestFrom none 0 (max current longest) r
      else longestFrom none (current + charWidth c) longest r

/-- How many columns the longest line of a text takes. A line end inside of a sequence ends
no line. -/
def longestLine (cs : List Char) : Nat := longestFrom none 0 0 cs

end TableLineage.Text
