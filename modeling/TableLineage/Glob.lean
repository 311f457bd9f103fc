/-! Patterns for names. A star stands for any run of bytes and a question mark
for one character, neither of them for a slash; brackets hold a class of
characters, and a backslash takes the sign after it as it is. Stars cut a
pattern into chunks, which are found one after the other from the left. -/
namespace TableLineage

namespace Glob

structure Range where
  low : Char
  high : Char
  deriving DecidableEq, Repr

inductive Atom where
  | any
  | oneOf (negated : Bool) (ranges : List Range)
  | literal (c : Char)
  deriving DecidableEq, Repr

/-- A character of a name, or one byte that is left of a character after a star
has taken the bytes in front of it. -/
inductive Letter where
  | char (c : Char)
  | stray
  deriving DecidableEq, Repr

/-! ### Reading -/

/-- A character of a class, which a backslash may escape, and what follows it. The
class does not end here. -/
def classChar : List Char → Option (Char × List Char)
  | '\\' :: c :: r => if r.isEmpty then none else some (c, r)
  | c :: r => if c ∈ ['\\', '-', ']'] || r.isEmpty then none else some (c, r)
  | [] => none

def classRange (cs : List Char) : Option (Range × List Char) :=
  match classChar cs with
  | none => none
  | some (low, '-' :: r) => (classChar r).map fun (high, r') => (⟨low, high⟩, r')
  | some (low, r) => some (⟨low, low⟩, r)

/-- The ranges of a class up to its closing bracket, at most `n` of them, and what
follows the bracket. -/
def classRanges : Nat → List Char → List Range → Option (List Range × List Char)
  | 0, _, _ => none
  | n + 1, cs, found =>
    match cs, found with
    | ']' :: r, _ :: _ => some (found.reverse, r)
    | _, _ =>
      match classRange cs with
      | some (range, r) => classRanges n r (range :: found)
      | none => none

def atom : List Char → Option (Atom × List Char)
  | [] => none
  | '[' :: r =>
    let negated := r.head? = some '^'
    let r := if negated then r.tail else r
    (classRanges (r.length + 1) r []).map fun (ranges, rest) => (.oneOf negated ranges, rest)
  | '?' :: r => some (.any, r)
  | '\\' :: c :: r => some (.literal c, r)
  | '\\' :: [] => none
  | c :: r => some (.literal c, r)

/-- How many characters come before the next star outside brackets. -/
def beforeStar (inClass : Bool) : List Char → Nat
  | [] => 0
  | '\\' :: _ :: r => beforeStar inClass r + 2
  | c :: r =>
    if c = '*' && !inClass then 0
    else beforeStar (if c = '[' then true else if c = ']' then false else inClass) r + 1

/-- Whether a pattern starts with a star, the chunk behind its stars, and what follows that. -/
def cut (cs : List Char) : Bool × List Char × List Char :=
  let body := cs.dropWhile (· = '*')
  let size := beforeStar false body
  (cs.head? = some '*', body.take size, body.drop size)

/-! ### Matching -/

def letters (name : String) : List Letter := name.toList.map .char

def replacement : Char := '\ufffd'

def Letter.value : Letter → Char
  | .char c => c
  | .stray => replacement

def Range.holds (r : Range) (c : Char) : Bool := r.low ≤ c && c ≤ r.high

def Atom.accepts : Atom → Letter → Bool
  | .any, l => l ≠ .char '/'
  | .oneOf negated ranges, l => ranges.any (·.holds l.value) ≠ negated
  | .literal c, l => l = .char c

/-- What follows an atom at the head of a name, if it fits there. -/
def Atom.step (a : Atom) : Option (List Letter) → Option (List Letter)
  | some (l :: ls) => if a.accepts l then some ls else none
  | _ => none

/-- What follows a chunk of at most `n` atoms at the head of a name, if it fits there; where it does not, it is still
read to its end. There is nothing if it is malformed. -/
def afterChunk : Nat → List Char → Option (List Letter) → Option (Option (List Letter))
  | _, [], left => some left
  | 0, _ :: _, _ => none
  | n + 1, c :: cs, left =>
    match atom (c :: cs) with
    | some (a, rest) => afterChunk n rest (a.step left)
    | none => none

/-- What may be left of a name after a star: all that follows one or more bytes
that are no slash. -/
def afterStar : List Letter → List (List Letter)
  | [] => []
  | .stray :: ls => ls :: afterStar ls
  | .char c :: ls =>
    if c = '/' then []
    else (List.range c.utf8Size).map (fun k => List.replicate (c.utf8Size - 1 - k) .stray ++ ls) ++ afterStar ls

/-- Places a chunk as far left as it fits. The last one has to take all of the name. -/
def place (chunk : List Char) (isLast : Bool) : List (List Letter) → Option (Option (List Letter))
  | [] => some none
  | ls :: more =>
    match afterChunk chunk.length chunk (some ls) with
    | none => none
    | some none => place chunk isLast more
    | some (some left) => if left.isEmpty || !isLast then some (some left) else place chunk isLast more

def readOn : Nat → List Char → Option Bool
  | _, [] => some false
  | 0, _ :: _ => none
  | n + 1, c :: cs =>
    let (_, chunk, rest) := cut (c :: cs)
    match afterChunk chunk.length chunk (some []) with
    | none => none
    | some _ => readOn n rest

/-- Whether a pattern of at most `n` chunks matches a name, unless it is found to be malformed. -/
def run : Nat → List Char → List Letter → Option Bool
  | _, [], ls => some ls.isEmpty
  | 0, _ :: _, _ => none
  | n + 1, c :: cs, ls =>
    let (star, chunk, rest) := cut (c :: cs)
    if star && chunk.isEmpty then some (!ls.contains (.char '/'))
    else
      match place chunk rest.isEmpty (ls :: if star then afterStar ls else []) with
      | none => none
      | some (some left) => run n rest left
      | some none => readOn n rest

def attempt (text name : String) : Option Bool := run text.toList.length text.toList (letters name)

end Glob

/-- A pattern that was tried on the empty name. -/
structure Glob where
  text : String
  tried : (Glob.attempt text "").isSome
  deriving DecidableEq, Repr

namespace Glob

def ofText? (text : String) : Option Glob := if tried : (attempt text "").isSome then some ⟨text, tried⟩ else none

/-- Whether the pattern matches a name. A fault that is found only now does not show. -/
def admits (g : Glob) (name : String) : Bool := (attempt g.text name).getD false

end Glob
end TableLineage
