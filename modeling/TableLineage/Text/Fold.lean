/-! Letter case, as far as a word of ASCII letters can tell. Two characters
outside ASCII have an ASCII lower case: the Kelvin sign and the dotted capital
I. Two fold into ASCII letters when words are compared without case: the long s
and again the Kelvin sign. -/
namespace TableLineage.Text

/-- Lower case, exact for every character whose lower case is ASCII. -/
def lowered (c : Char) : Char :=
  if c = '\u212a' then 'k' else if c = '\u0130' then 'i' else c.toLower

def lowerWord (s : String) : String := String.ofList (s.toList.map lowered)

/-- The ASCII letter that `c` folds to, in lower case, or `c` itself. -/
def folded (c : Char) : Char :=
  if c = '\u212a' then 'k' else if c = '\u017f' then 's' else c.toLower

def spells (s word : String) : Bool := s.toList.map folded == word.toList

end TableLineage.Text
