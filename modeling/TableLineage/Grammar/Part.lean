import TableLineage.Token.Basic
import TableLineage.Tree.Rule

/-! The language that productions are written in. A part reads tokens and adds
subtrees to the node that is being built; every choice is made by looking at the
lexemes ahead, never at their places. -/
namespace TableLineage.Grammar

inductive Class where
  | kind (k : Kind)
  | anyOf (ks : List Kind)
  | name
  | bareName
  | label
  /-- An unquoted word, in any mixture of cases. -/
  | word (w : String)
  /-- An unquoted plain name whose lower case is among the words. -/
  | amongWords (ws : List String)
  /-- An operator sign: no bracket, comma or semicolon closes over it. -/
  | sign
  deriving Repr

def Class.holds : Class → Lexeme → Bool
  | .kind k, l => l.kind = k
  | .anyOf ks, l => ks.contains l.kind
  | .name, l => l.isName
  | .bareName, l => l.isName && !l.quoted
  | .label, l => l.isLabel
  | .word w, l => l.isWord w
  | .amongWords ws, l => l.kind = .ident && !l.quoted && ws.contains (Text.lowerWord l.literal)
  | .sign, l => l.kind.isOperator && !(([.lparen, .rparen, .comma, .semicolon] : List Kind).contains l.kind)

inductive Look where
  | ahead (n : Nat) (c : Class)
  | both (a b : Look)
  | either (a b : Look)
  | not (a : Look)
  /-- Opening parentheses, if any, lead to a query. -/
  | query
  | star
  | funcCall
  /-- The kind stands outside parentheses before the statement ends. -/
  | outside (k : Kind)
  deriving Repr

def endLexeme : Lexeme := ⟨.eof, "", "", false⟩

/-- The lexeme `n` places ahead; past the end there is only the end. -/
def peek (ts : List Token) (n : Nat) : Lexeme := (ts[n]?.map Token.toLexeme).getD endLexeme

def leadsToQuery : List Token → Bool
  | [] => false
  | t :: ts =>
    if t.kind = .lparen then leadsToQuery ts
    else t.kind = .keyword .SELECT || t.kind = .keyword .WITH || t.kind = .keyword .VALUES

def endsInStar : List Token → Bool
  | d :: t :: ts => d.kind = .dot && (t.kind = .star || (t.isLabel && endsInStar ts))
  | _ => false

def endsInCall : List Token → Bool
  | [] => false
  | [t] => t.kind = .lparen
  | d :: t :: ts => if d.kind = .dot && t.isLabel then endsInCall ts else d.kind = .lparen

/-- Whether `k` comes at depth zero before the statement ends, the depth here being `depth`. -/
def standsOutside (k : Kind) (depth : Int) : List Token → Bool
  | [] => false
  | t :: ts =>
    if depth = 0 && t.kind = k then true
    else
      match t.kind with
      | .eof => false
      | .semicolon => if depth = 0 then false else standsOutside k depth ts
      | .lparen => standsOutside k (depth + 1) ts
      | .rparen => standsOutside k (depth - 1) ts
      | _ => standsOutside k depth ts

def Look.holds : Look → List Token → Bool
  | .ahead n c, ts => c.holds (peek ts n)
  | .both a b, ts => a.holds ts && b.holds ts
  | .either a b, ts => a.holds ts || b.holds ts
  | .not a, ts => !a.holds ts
  | .query, ts => leadsToQuery ts
  | .star, ts => (peek ts 0).isName && endsInStar ts.tail
  | .funcCall, ts =>
    let l := peek ts 0
    (l.isName || l.kind = .keyword .LEFT || l.kind = .keyword .RIGHT) && endsInCall ts.tail
  | .outside k, ts => standsOutside k 0 ts

inductive Fault where
  | expected (what : String)
  | unexpected
  | illegal
  | noExpression
  | noName
  | noQuery
  /-- The nesting is deeper than the text is long. -/
  | tooDeep
  deriving DecidableEq, Repr

/-- A piece of a production; `σ` names the productions. -/
inductive Part (σ : Type) where
  | done
  | take
  | need (c : Class) (fault : Fault)
  | fail (fault : Fault)
  | seq (a b : Part σ)
  | branch (l : Look) (a b : Part σ)
  | loop (l : Look) (a : Part σ)
  /-- Reads `a`; if that fails, reads `b` from the same place. -/
  | attempt (a b : Part σ)
  /-- Reads up to a token of the kind `stop` outside parentheses, or to the end
  of the parenthesis or statement. -/
  | swallow (stop : Option Kind)
  | call (s : σ)
  | node (r : Rule) (a : Part σ)
  /-- Keeps what `a` reads apart from what was read before it. -/
  | group (a : Part σ)
  /-- Puts what was read so far, and what `a` reads, under a new node. -/
  | wrap (r : Rule) (a : Part σ)
  deriving Repr

namespace Part

variable {σ : Type}

def all : List (Part σ) → Part σ
  | [] => .done
  | [p] => p
  | p :: ps => .seq p (all ps)

def opt (l : Look) (p : Part σ) : Part σ := .branch l p .done

def tok (k : Kind) : Part σ := .need (.kind k) (.expected k.name)

def key (k : Keyword) : Part σ := tok (.keyword k)

def name : Part σ := .need .name .noName

def two : Part σ := .seq .take .take

end Part

namespace Look

def is (k : Kind) : Look := .ahead 0 (.kind k)

def next (k : Kind) : Look := .ahead 1 (.kind k)

def keyAt (n : Nat) (k : Keyword) : Look := .ahead n (.kind (.keyword k))

def isKey (k : Keyword) : Look := is (.keyword k)

def nextKey (k : Keyword) : Look := next (.keyword k)

def isAny (ks : List Kind) : Look := .ahead 0 (.anyOf ks)

def isAnyKey (ks : List Keyword) : Look := isAny (ks.map .keyword)

def dotLabel : Look := .both (is .dot) (.ahead 1 .label)

def statementEnd : Look := isAny [.semicolon, .eof]

end Look
end TableLineage.Grammar
