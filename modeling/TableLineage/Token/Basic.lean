import TableLineage.Position
import TableLineage.Text.Fold
import TableLineage.Token.Kind

/-! Tokens. A lexeme is what the text says, a token is a lexeme at its place:
whatever is decided from lexemes alone cannot depend on layout. -/
namespace TableLineage

structure Lexeme where
  kind : Kind
  /-- The text that is meant: quotes taken off, escapes undone. -/
  literal : String
  raw : String
  quoted : Bool
  deriving DecidableEq, Repr

namespace Lexeme

def isName (l : Lexeme) : Bool := l.kind = .ident || (l.kind.isKeyword && !l.kind.isReserved)

def isLabel (l : Lexeme) : Bool := l.kind = .ident || l.kind.isKeyword

def isWord (l : Lexeme) (word : String) : Bool := !l.quoted && l.isLabel && Text.spells l.literal word

end Lexeme

structure Token extends Lexeme where
  span : Span
  deriving DecidableEq, Repr

namespace Token

/-- The token of a node that is not a leaf: nothing, nowhere. -/
def none : Token := ⟨⟨.eof, "", "", false⟩, .none⟩

instance : Inhabited Token := ⟨none⟩

end Token
end TableLineage
