import TableLineage.Tree.Basic

/-! Edits of parse trees. An edit changes the children or the rule of one node,
found by its rule and its number in preorder; its first and last token and its
text stay as they are. -/
namespace TableLineage

inductive Edit where
  | drop (index : Int)
  /-- Puts a child a second time right after itself. -/
  | dup (index : Int)
  | clear
  | setRule (rule : Option Rule)
  | setToken (index : Int) (kind : Kind) (raw : String)
  /-- Puts a new leaf in front of a child, at the place of the node's first token. -/
  | insertToken (index : Int) (kind : Kind) (raw : String)
  deriving Repr

namespace Tree

def withChildren (t : Tree) (cs : List Tree) : Tree :=
  match t with
  | .leaf tok => .leaf tok
  | .node r f l x _ => .node r f l x cs

def withRule (t : Tree) (rule : Option Rule) : Tree :=
  match t, rule with
  | .node _ f l x cs, some r => .node r f l x cs
  | .leaf tok, some r => .node r tok tok tok.raw []
  | t, none => .leaf ⟨⟨.eof, "", "", false⟩, t.span⟩

/-- A child number; a negative one counts from the end. -/
def childIndex (t : Tree) (i : Int) : Nat := (if i < 0 then i + t.children.length else i).toNat

def edit (t : Tree) : Edit → Tree
  | .drop i => t.withChildren (t.children.eraseIdx (t.childIndex i))
  | .dup i =>
    let n := t.childIndex i
    match t.children[n]? with
    | some c => t.withChildren (t.children.take (n + 1) ++ c :: t.children.drop (n + 1))
    | none => t
  | .clear => t.withChildren []
  | .setRule rule => t.withRule rule
  | .setToken i kind raw =>
    let n := t.childIndex i
    match t.children[n]? with
    | some c => t.withChildren (t.children.set n (.leaf ⟨⟨kind, raw, raw, c.token.quoted⟩, c.token.span⟩))
    | none => t
  | .insertToken i kind raw =>
    let n := t.childIndex i
    t.withChildren (t.children.take n ++ .leaf ⟨⟨kind, raw, raw, false⟩, t.first.span⟩ :: t.children.drop n)

mutual

/-- Changes the tree with the given number among those that `p` picks in preorder.
Also gives the number still to go, or nothing once the tree was found. -/
def alterNth (p : Tree → Bool) (f : Tree → Tree) : Tree → Nat → Tree × Option Nat
  | .leaf tok, n =>
    if p (.leaf tok) then if n = 0 then (f (.leaf tok), none) else (.leaf tok, some (n - 1))
    else (.leaf tok, some n)
  | .node r fst lst x cs, n =>
    if p (.node r fst lst x cs) then
      if n = 0 then (f (.node r fst lst x cs), none)
      else
        let (cs', left) := alterNthAll p f cs (n - 1)
        (.node r fst lst x cs', left)
    else
      let (cs', left) := alterNthAll p f cs n
      (.node r fst lst x cs', left)

def alterNthAll (p : Tree → Bool) (f : Tree → Tree) : List Tree → Nat → List Tree × Option Nat
  | [], n => ([], some n)
  | t :: ts, n =>
    match alterNth p f t n with
    | (t', none) => (t' :: ts, none)
    | (t', some n') =>
      let (ts', left) := alterNthAll p f ts n'
      (t' :: ts', left)

end

def editNth (t : Tree) (rule : String) (n : Nat) (e : Edit) : Tree :=
  (alterNth (fun s => s.ruleName == rule) (·.edit e) t n).1

end Tree
end TableLineage
