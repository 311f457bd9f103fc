import TableLineage.Proofs.Grammar.Depth
import TableLineage.Proofs.Grammar.View

/-! Where the nodes of a parse tree stand is settled by its leaves and the tokens after it. So trees
that are the same but for places, over tokens that have been moved, have been moved alike. -/
namespace TableLineage

open List

namespace Tree

mutual

/-- Every node starts with the first token from it on, `following` being those after the tree, and
a node that covers no token is empty. -/
def Marked (following : List Token) : Tree → Prop
  | .leaf _ => True
  | .node _ f l x cs =>
    f = (leavesAll cs ++ following).head?.getD .none ∧ (leavesAll cs = [] → l = f ∧ x = "") ∧
      MarkedAll following cs

def MarkedAll (following : List Token) : List Tree → Prop
  | [] => True
  | t :: ts => t.Marked (leavesAll ts ++ following) ∧ MarkedAll following ts

end

mutual

/-- No node starts at the end of the text. -/
def Clear : Tree → Prop
  | .leaf _ => True
  | .node _ f _ _ cs => f.kind ≠ .eof ∧ ClearAll cs

def ClearAll : List Tree → Prop
  | [] => True
  | t :: ts => t.Clear ∧ ClearAll ts

end

mutual

/-- The tree with its tokens put elsewhere. -/
def move (φ : Token → Token) : Tree → Tree
  | .leaf t => .leaf (φ t)
  | .node r f l x cs => .node r (φ f) (φ l) x (moveAll φ cs)

def moveAll (φ : Token → Token) : List Tree → List Tree
  | [] => []
  | t :: ts => t.move φ :: moveAll φ ts

end

mutual

@[simp] theorem move_id : (t : Tree) → t.move id = t
  | .leaf _ => rfl
  | .node r f l x cs => by rw [move, moveAll_id cs, id, id]

@[simp] theorem moveAll_id : (ts : List Tree) → moveAll id ts = ts
  | [] => rfl
  | t :: ts => by rw [moveAll, move_id t, moveAll_id ts]

end

@[simp] theorem rule?_move (φ : Token → Token) (t : Tree) : (t.move φ).rule? = t.rule? := by
  cases t <;> rfl

@[simp] theorem hasRule_move (φ : Token → Token) (t : Tree) (r : Rule) : (t.move φ).hasRule r = t.hasRule r := by
  rw [hasRule, hasRule, rule?_move]

theorem moveAll_eq_map (φ : Token → Token) (ts : List Tree) : moveAll φ ts = ts.map (move φ) := by
  induction ts with
  | nil => rfl
  | cons t ts ih => rw [moveAll, ih, map_cons]

theorem children_move (φ : Token → Token) (t : Tree) : (t.move φ).children = moveAll φ t.children := by
  cases t <;> rfl

theorem nodes_move (φ : Token → Token) (t : Tree) : (t.move φ).nodes = t.nodes.map (move φ) := by
  have same (t : Tree) : (t.move φ).isLeaf = t.isLeaf := by cases t <;> rfl
  rw [nodes, nodes, children_move, moveAll_eq_map, filter_map]
  simp only [Function.comp_def, same]

theorem first_move (φ : Token → Token) (t : Tree) : (t.move φ).first = φ t.first := by
  cases t <;> rfl

theorem last_move (φ : Token → Token) (t : Tree) : (t.move φ).last = φ t.last := by
  cases t <;> rfl

mutual

theorem bare_move {φ : Token → Token} (lexemes : ∀ u, (φ u).toLexeme = u.toLexeme) : (t : Tree) → (t.move φ).bare = t.bare
  | .leaf t => by rw [move, bare, bare, lexemes t]
  | .node r f l x cs => by rw [move, bare, bare, bareAll_moveAll lexemes cs]

theorem bareAll_moveAll {φ : Token → Token} (lexemes : ∀ u, (φ u).toLexeme = u.toLexeme) :
    (ts : List Tree) → bareAll (moveAll φ ts) = bareAll ts
  | [] => rfl
  | t :: ts => by rw [moveAll, bareAll, bareAll, bare_move lexemes t, bareAll_moveAll lexemes ts]

end

theorem markedAll_leaves (following ts : List Token) : MarkedAll following (ts.map .leaf) := by
  induction ts with
  | nil => trivial
  | cons t ts ih => exact ⟨trivial, ih⟩

theorem markedAll_append {following : List Token} {ts us : List Tree} :
    MarkedAll following (ts ++ us) ↔ MarkedAll (leavesAll us ++ following) ts ∧ MarkedAll following us := by
  induction ts with
  | nil => simp [MarkedAll]
  | cons t ts ih => simp only [cons_append, MarkedAll, ih, leavesAll_append, append_assoc, and_assoc]

theorem clearAll_leaves (ts : List Token) : ClearAll (ts.map .leaf) := by
  induction ts with
  | nil => trivial
  | cons t ts ih => exact ⟨trivial, ih⟩

theorem clearAll_append {ts us : List Tree} : ClearAll (ts ++ us) ↔ ClearAll ts ∧ ClearAll us := by
  induction ts with
  | nil => simp [ClearAll]
  | cons t ts ih => simp only [cons_append, ClearAll, ih, and_assoc]

theorem kind_of_head {ts following : List Token} (inner : ∀ t ∈ ts, t.kind ≠ .eof)
    (next : (following.head?.getD .none).kind ≠ .eof) : ((ts ++ following).head?.getD .none).kind ≠ .eof := by
  cases ts with
  | nil => exact next
  | cons t ts => exact inner t mem_cons_self

mutual

/-- Nodes in front of a token start in front of the end. -/
theorem Marked.clear {following : List Token} : (t : Tree) → t.Marked following → (∀ u ∈ t.leaves, u.kind ≠ .eof) →
    (following.head?.getD .none).kind ≠ .eof → t.Clear
  | .leaf _, _, _, _ => trivial
  | .node _ _ _ _ cs, ⟨first, _, all⟩, inner, next =>
    ⟨first ▸ kind_of_head inner next, MarkedAll.clear cs all inner next⟩

theorem MarkedAll.clear {following : List Token} : (ts : List Tree) → MarkedAll following ts →
    (∀ u ∈ leavesAll ts, u.kind ≠ .eof) → (following.head?.getD .none).kind ≠ .eof → ClearAll ts
  | [], _, _, _ => trivial
  | t :: ts, ⟨head, tail⟩, inner, next =>
    have later : ∀ u ∈ leavesAll ts, u.kind ≠ .eof := fun u member => inner u (mem_append_right _ member)
    ⟨Marked.clear t head (fun u member => inner u (mem_append_left _ member)) (kind_of_head later next),
      MarkedAll.clear ts tail later next⟩

end

/-- The first token after some trees has been moved too, or no node of the trees starts there. -/
def Meets (φ : Token → Token) (following following' : List Token) (clear : Prop) : Prop :=
  following'.head?.getD .none = φ (following.head?.getD .none) ∨ (following.head?.getD .none).kind = .eof ∧ clear

theorem Meets.append {φ : Token → Token} {following following' : List Token} {clear clear' : Prop}
    (meets : Meets φ following following' clear) (weaker : clear → clear') (ts : List Token) :
    Meets φ (ts ++ following) (ts.map φ ++ following') clear' := by
  cases ts with
  | nil => exact meets.imp_right (And.imp_right weaker)
  | cons t ts => exact .inl rfl

theorem length_leaves_of_bare {t t' : Tree} (same : t.bare = t'.bare) : t'.leaves.length = t.leaves.length := by
  have leaves := congrArg List.length (t.leaves_bare.symm.trans (same ▸ t'.leaves_bare))
  simpa using leaves.symm

/-- What stands between two of the tokens stands between them also where they have been moved to. -/
def SameSlices (φ : Token → Token) (source source' : List Char) (tokens : List Token) : Prop :=
  ∀ f ∈ tokens, ∀ l ∈ tokens, Text.slice source' (φ f).span.start.offset (φ l).span.stop.offset =
    Text.slice source f.span.start.offset l.span.stop.offset

mutual

/-- Trees that differ in places only, over tokens that have been moved, have been moved. -/
theorem eq_move {φ : Token → Token} {source source' : List Char} {tokens following following' : List Token}
    (slices : SameSlices φ source source' tokens) : (t t' : Tree) → t.Bounded source → t'.Bounded source' →
    t.Marked following → t'.Marked following' → t.bare = t'.bare → t'.leaves = t.leaves.map φ →
    (∀ u ∈ t.leaves, u ∈ tokens) → Meets φ following following' t.Clear → t' = t.move φ
  | .leaf a, .leaf a', _, _, _, _, _, moved, _, _ => by
    simpa [leaves, move] using moved
  | .leaf _, .node .., _, _, _, _, same, _, _, _ => by
    simp [bare] at same
  | .node .., .leaf _, _, _, _, _, same, _, _, _ => by
    simp [bare] at same
  | .node r f l x cs, .node r' f' l' x' cs', .node edges all, .node edges' all', ⟨first, empty, marked⟩,
      ⟨first', empty', marked'⟩, same, moved, within, meets => by
    rw [leaves, leaves] at moved
    rw [leaves] at within
    simp only [bare, node.injEq] at same
    obtain ⟨rfl, -, -, -, inner⟩ := same
    have children : cs' = moveAll φ cs :=
      eq_moveAll slices cs cs' all all' marked marked' inner moved within (meets.imp_right (And.imp_right And.right))
    have starts : f' = φ f := by
      obtain here | ⟨eof, clear⟩ := meets.append id (leavesAll cs)
      · rw [first, first', moved, here]
      · exact absurd (first ▸ eof) clear.1
    by_cases none : leavesAll cs = []
    · obtain ⟨rfl, rfl⟩ := empty none
      obtain ⟨rfl, rfl⟩ := empty' (by rw [moved, none]; rfl)
      rw [move, children, starts]
    · obtain ⟨head, last, text⟩ := edges none
      obtain ⟨_, last', text'⟩ := edges' (by simpa [moved] using none)
      have stops : l' = φ l := by
        rw [moved, getLast?_map, last] at last'
        exact (Option.some.inj last').symm
      rw [move, children, text, text', starts, stops,
        slices f (within f (mem_of_head? head)) l (within l (mem_of_getLast? last))]

theorem eq_moveAll {φ : Token → Token} {source source' : List Char} {tokens following following' : List Token}
    (slices : SameSlices φ source source' tokens) : (ts ts' : List Tree) → (∀ t ∈ ts, t.Bounded source) →
    (∀ t ∈ ts', t.Bounded source') → MarkedAll following ts → MarkedAll following' ts' → bareAll ts = bareAll ts' →
    leavesAll ts' = (leavesAll ts).map φ → (∀ u ∈ leavesAll ts, u ∈ tokens) →
    Meets φ following following' (ClearAll ts) → ts' = moveAll φ ts
  | [], [], _, _, _, _, _, _, _, _ => rfl
  | [], _ :: _, _, _, _, _, same, _, _, _ => by
    cases same
  | _ :: _, [], _, _, _, _, same, _, _, _ => by
    cases same
  | t :: ts, t' :: ts', all, all', ⟨head, tail⟩, ⟨head', tail'⟩, same, moved, within, meets => by
    obtain ⟨one, others⟩ := List.cons.inj same
    rw [leavesAll, leavesAll, map_append] at moved
    rw [leavesAll] at within
    obtain ⟨front, back⟩ := append_inj moved (by rw [length_map]; exact length_leaves_of_bare one)
    rw [back] at head'
    rw [moveAll, ← eq_move slices t t' (all t mem_cons_self) (all' t' mem_cons_self) head head' one front
        (fun u member => within u (mem_append_left _ member)) (meets.append And.left _),
      ← eq_moveAll slices ts ts' (fun u member => all u (mem_cons_of_mem t member))
        (fun u member => all' u (mem_cons_of_mem t' member)) tail tail' others back
        (fun u member => within u (mem_append_right _ member)) (meets.imp_right (And.imp_right And.right))]

end

end Tree

namespace Grammar

open Tree (leavesAll MarkedAll ClearAll)

namespace Part

/-- Whether trees that were built before go under a new node only together with a token. -/
def wrapsTokens : Part Symbol → Bool
  | .wrap _ a => a.eats .anything && a.wrapsTokens
  | .seq a b | .branch _ a b | .attempt a b => a.wrapsTokens && b.wrapsTokens
  | .loop _ a | .node _ a | .group a => a.wrapsTokens
  | .done | .take | .need .. | .fail _ | .swallow _ | .call _ => true

end Part

theorem production_wrapsTokens (s : Symbol) : s.production.wrapsTokens := by
  cases s <;> decide +kernel

/-- The node over marked trees is marked. -/
theorem marked_closeNode {source : List Char} {r : Rule} {first : Token} {isEmpty : Bool} {s : State}
    {children : List Tree} (marked : MarkedAll s.rest children)
    (starts : first = (leavesAll children ++ s.rest).head?.getD .none)
    (empty : leavesAll children = [] → isEmpty = true) :
    (closeNode source r first isEmpty s children).Marked s.rest := by
  unfold closeNode
  split
  · exact ⟨starts, fun _ => ⟨rfl, rfl⟩, marked⟩
  · next covers => exact ⟨starts, fun none => absurd (empty none) covers, marked⟩

/-- A part marks what it builds. -/
theorem Part.Ran.marks {source : List Char} {p : Part Symbol} {acc out : List Tree} {s s' : State}
    (ran : Ran source p acc s out s') (wraps : p.wrapsTokens) (frontier : Frontier source acc s)
    (marked : MarkedAll s.rest acc) : MarkedAll s'.rest out := by
  induction ran with
  | done | stop => exact marked
  | take reads | need _ reads =>
    rw [reads.rest] at marked
    exact Tree.markedAll_append.2 ⟨by simpa [Tree.leaves] using marked, trivial, trivial⟩
  | swallow reads =>
    rw [reads.rest] at marked
    exact Tree.markedAll_append.2 ⟨by simpa using marked, Tree.markedAll_leaves _ _⟩
  | seq one _ first second =>
    obtain ⟨left, right⟩ := Bool.and_eq_true_iff.1 wraps
    obtain ⟨_, _, _, keeps⟩ := one.advances
    exact second right (keeps frontier) (first left frontier marked)
  | round _ one _ first second =>
    obtain ⟨_, _, _, keeps⟩ := one.advances
    exact second wraps (keeps frontier) (first wraps frontier marked)
  | goes _ _ ih | tried _ ih => exact ih (Bool.and_eq_true_iff.1 wraps).1 frontier marked
  | turns _ _ ih | instead _ ih => exact ih (Bool.and_eq_true_iff.1 wraps).2 frontier marked
  | last _ _ ih => exact ih wraps frontier marked
  | @call u _ _ _ _ _ ih => exact ih (production_wrapsTokens u) frontier marked
  | @node _ _ _ s _ _ _ _ inner ih =>
    obtain ⟨_, reads, rfl, _⟩ := inner.advances
    rw [reads.rest] at marked
    refine Tree.markedAll_append.2 ⟨by simpa [leaves_closeNode] using marked, ?_, trivial⟩
    refine marked_closeNode (ih wraps (.nil source s) trivial) ?_ ?_
    · rw [State.current, reads.rest]
    · intro none
      simp [reads.count, none]
  | @group _ _ s _ _ inner ih =>
    obtain ⟨_, reads, rfl, _⟩ := inner.advances
    rw [reads.rest] at marked
    exact Tree.markedAll_append.2 ⟨marked, ih wraps (.nil source s) trivial⟩
  | @wrap _ _ _ _ children _ inner ih =>
    obtain ⟨eats, wraps⟩ := Bool.and_eq_true_iff.1 wraps
    obtain ⟨taken, reads, leaves, keeps⟩ := inner.advances
    have less := inner.eats eats (Ahead.holds_anything _)
    have some : leavesAll children ≠ [] := by
      intro none
      rw [leaves, append_eq_nil_iff] at none
      rw [reads.rest, none.2] at less
      exact Nat.lt_irrefl _ less
    refine ⟨marked_closeNode (ih wraps frontier marked) ?_ fun none => absurd none some, trivial⟩
    cases children with
    | nil => exact absurd rfl some
    | cons t ts => exact (keeps frontier).first t rfl

end Grammar
end TableLineage
