/-! Points and ranges of a source text. Lines and columns count from one and
columns count characters; offsets count bytes from zero. Line zero marks a
point that no text has. -/
namespace TableLineage

structure Position where
  line : Nat
  column : Nat
  offset : Nat
  deriving DecidableEq, Repr

namespace Position

def none : Position := ⟨0, 0, 0⟩

def start : Position := ⟨1, 1, 0⟩

instance : Inhabited Position := ⟨none⟩

def isValid (p : Position) : Bool := 0 < p.line

/-- Points are ordered by line and column; the offset has no say. -/
def before (p q : Position) : Bool :=
  if p.line ≠ q.line then p.line < q.line else p.column < q.column

def step (p : Position) (c : Char) : Position :=
  if c = '\n' then ⟨p.line + 1, 1, p.offset + c.utf8Size⟩
  else ⟨p.line, p.column + 1, p.offset + c.utf8Size⟩

def after (p : Position) (cs : List Char) : Position := cs.foldl step p

@[simp] theorem after_nil (p : Position) : p.after [] = p := rfl

@[simp] theorem after_cons (p : Position) (c : Char) (cs : List Char) :
    p.after (c :: cs) = (p.step c).after cs := rfl

theorem after_append (p : Position) (cs ds : List Char) :
    p.after (cs ++ ds) = (p.after cs).after ds := List.foldl_append

end Position

/-- A range of source text; `stop` is the point just past its last character. -/
structure Span where
  start : Position
  stop : Position
  deriving DecidableEq, Repr

namespace Span

def none : Span := ⟨.none, .none⟩

instance : Inhabited Span := ⟨none⟩

def isValid (s : Span) : Bool := s.start.isValid && s.stop.isValid

/-- The least range that holds both; a range that is not valid gives way to the other. -/
def cover (s t : Span) : Span :=
  if !s.isValid then t
  else if !t.isValid then s
  else
    ⟨if t.start.before s.start then t.start else s.start,
     if s.stop.before t.stop then t.stop else s.stop⟩

end Span
end TableLineage
