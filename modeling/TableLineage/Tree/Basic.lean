import TableLineage.Token.Basic
import TableLineage.Tree.Rule

/-! Parse trees. A leaf is a token; a node has the rule it comes from, the first
and last token it covers, its source text and its children in source order. -/
namespace TableLineage

inductive Tree where
  | leaf (token : Token)
  | node (rule : Rule) (first last : Token) (text : String) (children : List Tree)
  deriving Repr

namespace Tree

instance : Inhabited Tree := ⟨.leaf .none⟩

def isLeaf : Tree → Bool
  | .leaf _ => true
  | .node .. => false

def rule? : Tree → Option Rule
  | .leaf _ => none
  | .node r .. => some r

def ruleName (t : Tree) : String := (t.rule?.map Rule.name).getD "Terminal"

def children : Tree → List Tree
  | .leaf _ => []
  | .node _ _ _ _ cs => cs

def token : Tree → Token
  | .leaf t => t
  | .node .. => .none

def first : Tree → Token
  | .leaf t => t
  | .node _ f _ _ _ => f

def last : Tree → Token
  | .leaf t => t
  | .node _ _ l _ _ => l

def text : Tree → String
  | .leaf t => t.raw
  | .node _ _ _ x _ => x

def span (t : Tree) : Span := ⟨t.first.span.start, t.last.span.stop⟩

def is (t : Tree) (k : Kind) : Bool :=
  match t with
  | .leaf tok => tok.kind = k
  | .node .. => false

def hasRule (t : Tree) (r : Rule) : Bool := t.rule? = some r

def child? (t : Tree) (r : Rule) : Option Tree := t.children.find? (·.hasRule r)

def childrenOf (t : Tree) (r : Rule) : List Tree := t.children.filter (·.hasRule r)

def leaf? (t : Tree) (k : Kind) : Option Tree := t.children.find? (·.is k)

def has (t : Tree) (k : Kind) : Bool := t.children.any (·.is k)

def nodes (t : Tree) : List Tree := t.children.filter (!·.isLeaf)

mutual

def leaves : Tree → List Token
  | .leaf t => [t]
  | .node _ _ _ _ cs => leavesAll cs

def leavesAll : List Tree → List Token
  | [] => []
  | t :: ts => t.leaves ++ leavesAll ts

end

mutual

def render : Tree → String
  | .leaf t => t.raw
  | .node r _ _ _ cs => "(" ++ r.name ++ renderAll cs ++ ")"

def renderAll : List Tree → String
  | [] => ""
  | t :: ts => " " ++ t.render ++ renderAll ts

end

mutual

/-- The nodes in preorder with their depths, the tree itself at depth `d`. -/
def nodesFrom (d : Nat) : Tree → List (Nat × Tree)
  | .leaf _ => []
  | .node r f l x cs => (d, .node r f l x cs) :: nodesFromAll (d + 1) cs

def nodesFromAll (d : Nat) : List Tree → List (Nat × Tree)
  | [] => []
  | t :: ts => nodesFrom d t ++ nodesFromAll d ts

end

/-- Whether the tree only hands its text on to a single node below it. -/
def isChain (t : Tree) : Bool :=
  match t.children with
  | [c] => !c.isLeaf
  | _ => false

end Tree
end TableLineage
