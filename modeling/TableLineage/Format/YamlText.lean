import TableLineage.Format.YamlCursor
import TableLineage.Format.YamlFault

/-! The scalars of a YAML text: plain ones, quoted ones and blocks. A scalar can go on over
several lines; how they are joined is the same for plain and quoted ones. -/
namespace TableLineage.Yaml

/-! ### Gaps -/

structure Gap where
  blanks : List Char
  lineEnded : Bool
  firstBreak : Option Char
  breaks : List Char
  deriving DecidableEq, Repr

namespace Gap

def none : Gap := ⟨[], false, .none, []⟩

/-- What a gap stands for: a single line end is a space, of several the first goes. -/
def text (g : Gap) : List Char :=
  if !g.lineEnded then g.blanks
  else
    match g.firstBreak with
    | some c => if c = '\n' then if g.breaks.isEmpty then [' '] else g.breaks else c :: g.breaks
    | .none => g.breaks

/-- Reads on through a gap. A tab left of the column `least` of a later line is a fault. -/
def readFrom (least : Nat) : Nat → Gap → Cursor → Except Cursor (Gap × Cursor)
  | 0, g, c => .ok (g, c)
  | fuel + 1, g, c =>
    match c.rest with
    | [] => .ok (g, c)
    | b :: _ =>
      if isBlankMark b then
        if g.lineEnded then
          if b = '\t' && c.column < least then .error c else readFrom least fuel g (c.skip 1)
        else readFrom least fuel { g with blanks := g.blanks ++ [b] } (c.skip 1)
      else
        match Cursor.break? c.rest with
        | some (l, _) =>
          if g.lineEnded then readFrom least fuel { g with breaks := g.breaks ++ [l] } c.skipLine
          else readFrom least fuel ⟨[], true, some l, []⟩ c.skipLine
        | .none => .ok (g, c)

def read (least : Nat) (g : Gap) (c : Cursor) : Except Cursor (Gap × Cursor) := readFrom least (c.rest.length + 1) g c

end Gap

/-- What can follow a word of a plain scalar within brackets. -/
def flowSigns : List Char := [',', '?', '[', ']', '\x7b', '\x7d']

def plainWord (inFlow : Bool) : List Char → List Char
  | [] => []
  | c :: r =>
    if isGap c || (c = ':' && atGap r) || (inFlow && flowSigns.contains c) then []
    else c :: plainWord inFlow r

structure Scalar where
  text : List Char
  lineEnded : Bool
  after : Cursor

/-- A plain scalar; outside of brackets, its further lines begin at the column `least` or
to the right of it. -/
def plainFrom (inFlow : Bool) (least start : Nat) : Nat → List Char → Gap → Cursor → Except Fault Scalar
  | 0, done, g, c => .ok ⟨done, g.lineEnded, c⟩
  | fuel + 1, done, g, c =>
    if (c.column = 0 && atDocumentMark c.rest) || c.rest.head? = some '#' then .ok ⟨done, g.lineEnded, c⟩
    else
      let word := plainWord inFlow c.rest
      let c := c.skip word.length
      let (done, g) := if word.isEmpty then (done, g) else (done ++ g.text ++ word, Gap.none)
      if !(c.rest.head?.map isGap).getD false then .ok ⟨done, g.lineEnded, c⟩
      else
        match g.read least c with
        | .error c => .error (.inToken start c.line .tabInIndent)
        | .ok (g, c) =>
          if !inFlow && c.column < least then .ok ⟨done, g.lineEnded, c⟩
          else plainFrom inFlow least start fuel done g c

def escaped? (c : Char) : Option Char :=
  match c with
  | '0' => some '\x00'
  | 'a' => some '\x07'
  | 'b' => some '\x08'
  | 't' => some '\t'
  | '\t' => some '\t'
  | 'n' => some '\n'
  | 'v' => some '\x0b'
  | 'f' => some '\x0c'
  | 'r' => some '\r'
  | 'e' => some '\x1b'
  | ' ' => some ' '
  | '\x22' => some '\x22'
  | '\x27' => some '\x27'
  | '\\' => some '\\'
  | 'N' => some '\u0085'
  | '_' => some '\u00a0'
  | 'L' => some '\u2028'
  | 'P' => some '\u2029'
  | _ => none

def codeLength (c : Char) : Nat := if c = 'x' then 2 else if c = 'u' then 4 else if c = 'U' then 8 else 0

/-- The word of a quoted scalar, and whether a backslash at the line end cuts it off. -/
def quotedWord (single : Bool) (start : Nat) : Nat → List Char → Cursor → Except Fault (List Char × Bool × Cursor)
  | 0, done, c => .ok (done, false, c)
  | fuel + 1, done, c =>
    match c.rest with
    | [] => .ok (done, false, c)
    | d :: r =>
      if isGap d then .ok (done, false, c)
      else if single then
        if d = '\x27' then
          if r.head? = some '\x27' then quotedWord single start fuel (done ++ [d]) (c.skip 2) else .ok (done, false, c)
        else quotedWord single start fuel (done ++ [d]) (c.skip 1)
      else if d = '\x22' then .ok (done, false, c)
      else if d = '\\' then
        match r with
        | [] => .error (.inToken start c.line .unknownEscape)
        | e :: r =>
          if isBreak e then .ok (done, true, (c.skip 1).skipLine)
          else if 0 < codeLength e then
            let digits := r.take (codeLength e)
            let value := digitsValue? 16 digits
            match value with
            | some n =>
              if digits.length < codeLength e then .error (.inToken start c.line .noHexNumber)
              else if n.isValidChar then quotedWord single start fuel (done ++ [Char.ofNat n]) (c.skip (2 + codeLength e))
              else .error (.inToken start c.line .noCharacter)
            | none => .error (.inToken start c.line .noHexNumber)
          else
            match escaped? e with
            | some x => quotedWord single start fuel (done ++ [x]) (c.skip 2)
            | none => .error (.inToken start c.line .unknownEscape)
      else quotedWord single start fuel (done ++ [d]) (c.skip 1)

def quotedFrom (single : Bool) (start : Nat) : Nat → List Char → Cursor → Except Fault Scalar
  | 0, _, c => .error (.inToken start c.line .endInQuotes)
  | fuel + 1, done, c =>
    if c.column = 0 && atDocumentMark c.rest then .error (.inToken start c.line .markInQuotes)
    else if c.rest.isEmpty then .error (.inToken start c.line .endInQuotes)
    else
      match quotedWord single start (c.rest.length + 1) done c with
      | .error f => .error f
      | .ok (done, cut, c) =>
        if !cut && c.rest.head? = some (if single then '\x27' else '\x22') then .ok ⟨done, false, c.skip 1⟩
        else
          match Gap.read 0 ⟨[], cut, none, []⟩ c with
          | .error c => .error (.inToken start c.line .tabInIndent)
          | .ok (g, c) => quotedFrom single start fuel (done ++ g.text) c

/-! ### Block scalars -/

structure BlockHints where
  /-- Whether all line ends behind the text stay, or none of them does. -/
  keep : Bool
  strip : Bool
  indent : Nat
  deriving DecidableEq, Repr

def blockIndent? (cs : List Char) : Option Nat :=
  cs.head?.bind fun c => if c.isDigit then some (c.toNat - '0'.toNat) else none

def blockHintsOf (c : Cursor) : Except Problem (BlockHints × Cursor) :=
  let chomp? (c : Cursor) : Option Char :=
    c.rest.head?.bind fun d => if d = '+' || d = '-' then some d else none
  let finish (sign : Option Char) (indent : Option Nat) (c : Cursor) : Except Problem (BlockHints × Cursor) :=
    if indent = some 0 then .error .zeroIndent else .ok (⟨sign = some '+', sign = some '-', indent.getD 0⟩, c)
  match chomp? c with
  | some sign =>
    let c := c.skip 1
    match blockIndent? c.rest with
    | some n => finish (some sign) (some n) (c.skip 1)
    | none => finish (some sign) none c
  | none =>
    match blockIndent? c.rest with
    | some n =>
      let c := c.skip 1
      match chomp? c with
      | some sign => finish (some sign) (some n) (c.skip 1)
      | none => finish none (some n) c
    | none => .ok (⟨false, false, 0⟩, c)

/-- The empty lines in front of the next line of a block, and the widest indentation seen;
while the indentation is not known, it is zero. -/
def blockBreaks (indent : Nat) : Nat → List Char → Nat → Cursor → Except Cursor (List Char × Nat × Cursor)
  | 0, breaks, widest, c => .ok (breaks, widest, c)
  | fuel + 1, breaks, widest, c =>
    let spaces := (c.rest.takeWhile (· = ' ')).length
    let c := c.skip (if indent = 0 then spaces else min spaces (indent - c.column))
    let widest := max widest c.column
    if (indent = 0 || c.column < indent) && c.rest.head? = some '\t' then .error c
    else
      match Cursor.break? c.rest with
      | some (l, _) => blockBreaks indent fuel (breaks ++ [l]) widest c.skipLine
      | none => .ok (breaks, widest, c)

/-- The lines of a block scalar: what was read, the last line end, the line ends after it,
and whether the last line began with a blank. -/
def blockLines (literal : Bool) (indent start : Nat) :
    Nat → List Char → List Char → List Char → Bool → Cursor → Except Fault (List Char × List Char × List Char × Cursor)
  | 0, done, lead, breaks, _, c => .ok (done, lead, breaks, c)
  | fuel + 1, done, lead, breaks, blankBefore, c =>
    if c.column ≠ indent || c.rest.isEmpty then .ok (done, lead, breaks, c)
    else
      let blank := (c.rest.head?.map isBlankMark).getD false
      let joint :=
        if !literal && !blankBefore && !blank && lead.head? = some '\n' then
          if breaks.isEmpty then [' '] else []
        else lead
      let line := c.rest.takeWhile fun d => !isBreak d
      let c := c.skip line.length
      let lead := ((Cursor.break? c.rest).map fun b => [b.1]).getD []
      match blockBreaks indent (c.rest.length + 1) [] 0 c.skipLine with
      | .error c => .error (.inToken start c.line .tabForSpace)
      | .ok (more, _, c) => blockLines literal indent start fuel (done ++ joint ++ breaks ++ line) lead more blank c

/-- A block scalar inside of a block at column `outer`, which is -1 at the top. -/
def blockScalar (literal : Bool) (outer : Int) (c : Cursor) : Except Fault Scalar :=
  let start := c.line
  match blockHintsOf (c.skip 1) with
  | .error p => .error (.inToken start c.line p)
  | .ok (hints, c) =>
    let c := c.skipWhile isBlankMark
    let c := if c.rest.head? = some '#' then c.skipWhile fun d => !isBreak d else c
    if !(c.rest.isEmpty || (Cursor.break? c.rest).isSome) then .error (.inToken start c.line .noLineEnd)
    else
      let given := if hints.indent = 0 then 0 else (max outer 0).toNat + hints.indent
      match blockBreaks given (c.rest.length + 1) [] 0 c.skipLine with
      | .error c => .error (.inToken start c.line .tabForSpace)
      | .ok (breaks, widest, c) =>
        let indent := if given = 0 then max (max widest (outer + 1).toNat) 1 else given
        match blockLines literal indent start (c.rest.length + 1) [] [] breaks false c with
        | .error f => .error f
        | .ok (done, lead, breaks, c) =>
          .ok ⟨done ++ (if hints.strip then [] else lead) ++ (if hints.keep then breaks else []), true, c⟩

end TableLineage.Yaml
