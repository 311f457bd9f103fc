import TableLineage.Text.Case
import TableLineage.Text.Class

/-! Lower case of whole texts. A capital sigma at the end of a word becomes a
final sigma, and the dotted capital I keeps its dot. -/
namespace TableLineage.Text

def capitalSigma : Char := 'Σ'

def smallSigma : Char := 'σ'

def finalSigma : Char := 'ς'

/-- The lower case of a character without regard to what stands around it. -/
def lowerFull (c : Char) : List Char := if c = '\u0130' then ['i', '\u0307'] else [lowerChar c]

/-- How many signs are passed over in search of the letter after a sigma. -/
def sigmaReach : Nat := 31

/-- Whether the word goes on after a sigma that `cs` follows, looking at `n` characters. -/
def wordGoesOn : Nat → List Char → Bool
  | 0, _ => false
  | _, [] => false
  | n + 1, c :: cs => if isCaseIgnorable c then wordGoesOn n cs else isCased c

/-- The lower case of a text; `inWord` tells whether a letter with case came before
and no end of a word since. -/
def lowerFrom (inWord : Bool) : List Char → List Char
  | [] => []
  | c :: cs =>
    if !inWord then
      if isCased c then lowerFull c ++ lowerFrom true cs else c :: lowerFrom false cs
    else if !isCased c && !isCaseIgnorable c then c :: lowerFrom false cs
    else if c = capitalSigma then
      (if wordGoesOn sigmaReach cs then smallSigma else finalSigma) :: lowerFrom true cs
    else lowerFull c ++ lowerFrom true cs

def lower (s : String) : String := String.ofList (lowerFrom false s.toList)

end TableLineage.Text
