import TableLineage.Proofs.Grammar.Derived
import TableLineage.Proofs.Grammar.Faithful
import TableLineage.Proofs.Statement.References

/-! Outlines against parse trees: a walk meets the tables of the trees, parts stand in the parts above
them, and they are met in the order of the text unless clauses were written in another order than they
are walked in. All of it is drawn, tree by tree, from a list of trees. -/
namespace TableLineage

open List
open Position (past)

/-! ### Points and ranges of a text -/

variable {text : List Char} {t : Tree} {r : Rule} {os ps : List Outline} {s : Span} {m : Mark} {o : Outline}

namespace Position

theorem before_past_append (front : List Char) {middle : List Char} (some : middle ≠ []) :
    (past front).before (past (front ++ middle)) = true := by
  by_cases newline : '\n' ∈ middle
  · have more : 0 < middle.count '\n' := count_pos_iff.2 newline
    have less : (past front).line < (past (front ++ middle)).line := by
      simp only [past, count_append]
      omega
    rw [before, if_pos (Nat.ne_of_lt less)]
    exact decide_eq_true less
  · have same : (past (front ++ middle)).line = (past front).line := by
      simp [past, count_eq_zero.2 newline]
    have inside : ∀ c ∈ middle.reverse, decide (c ≠ '\n') = true := by
      intro c member
      exact decide_eq_true fun equal => newline (equal ▸ mem_reverse.1 member)
    have wider : (past front).column < (past (front ++ middle)).column := by
      have : 0 < middle.length := length_pos_iff.2 some
      simp only [past, reverse_append, takeWhile_append_of_pos inside, length_append, length_reverse]
      omega
    rw [before, if_neg (by simp [same])]
    exact decide_eq_true wider

theorem offset_lt_past_append (front : List Char) {middle : List Char} (some : middle ≠ []) :
    (past front).offset < (past (front ++ middle)).offset := by
  have more := Text.bytesOf_pos some
  simp only [past, Text.bytesOf_append, length_append]
  omega

theorem before_asymm {p q : Position} (less : p.before q = true) : q.before p = false := by
  unfold before at less ⊢
  split at less
  · next other =>
    have less := of_decide_eq_true less
    rw [if_pos (Ne.symm other)]
    exact decide_eq_false (Nat.lt_asymm less)
  · next same =>
    have less := of_decide_eq_true less
    rw [if_neg (by simpa [eq_comm] using same)]
    exact decide_eq_false (Nat.lt_asymm less)

theorem before_irrefl (p : Position) : p.before p = false := by
  simp [before]

/-- The point stands in the text. -/
def InText (text : List Char) (p : Position) : Prop := ∃ front back, text = front ++ back ∧ p = past front

/-- In one text lines and columns tell the same order as bytes do. -/
theorem before_iff {p q : Position} (first : p.InText text) (second : q.InText text) :
    p.before q = true ↔ p.offset < q.offset := by
  obtain ⟨front, back, rfl, rfl⟩ := first
  obtain ⟨front', back', same, rfl⟩ := second
  obtain ⟨middle, rfl, -⟩ | ⟨middle, rfl, -⟩ := append_eq_append_iff.1 same
  · by_cases none : middle = []
    · subst none
      simp [before_irrefl]
    · exact iff_of_true (before_past_append front none) (offset_lt_past_append front none)
  · by_cases none : middle = []
    · subst none
      simp [before_irrefl]
    · have less := offset_lt_past_append front' none
      rw [before_asymm (before_past_append front' none)]
      exact iff_of_false Bool.false_ne_true (by omega)

end Position

namespace Span

/-- The range holds another, in bytes. -/
def Contains (s t : Span) : Prop := s.start.offset ≤ t.start.offset ∧ t.stop.offset ≤ s.stop.offset

theorem Contains.refl (s : Span) : s.Contains s := ⟨Nat.le_refl _, Nat.le_refl _⟩

theorem Contains.trans {t u : Span} (first : s.Contains t) (second : t.Contains u) : s.Contains u :=
  ⟨Nat.le_trans first.1 second.1, Nat.le_trans second.2 first.2⟩

theorem Holds.isValid {s : Span} {text : List Char} {raw : String} (holds : s.Holds text raw) : s.isValid = true := by
  obtain ⟨front, back, -, rfl⟩ := holds
  have start : 0 < 1 + front.count '\n' := by omega
  have stop : 0 < 1 + (front ++ raw.toList).count '\n' := by omega
  simp only [Span.isValid, Position.isValid, past, start, stop, decide_true, Bool.and_self]

theorem Holds.inText {raw : String} (holds : s.Holds text raw) : s.start.InText text ∧ s.stop.InText text := by
  obtain ⟨front, back, rfl, rfl⟩ := holds
  exact ⟨⟨front, _, rfl, rfl⟩, ⟨front ++ raw.toList, back, by simp, rfl⟩⟩

/-- Where two points of a text come one after the other, the text has something between them. -/
theorem exists_holds {p q : Position} (first : p.InText text) (second : q.InText text) (order : p.offset ≤ q.offset) :
    ∃ raw, Holds ⟨p, q⟩ text raw := by
  obtain ⟨front, back, rfl, rfl⟩ := first
  obtain ⟨front', back', same, rfl⟩ := second
  obtain ⟨middle, rfl⟩ := Text.exists_append_of_bytes_le same order
  rw [append_assoc, append_cancel_left_eq] at same
  exact ⟨String.ofList middle, front, back', by simp [same], by simp⟩

end Span

/-! ### Ranges from token to token -/

/-- Tokens that stand in a text in their order, none of them empty. -/
structure Standing (text : List Char) (us : List Token) : Prop where
  stand : ∀ u ∈ us, u.span.Holds text u.raw
  size : ∀ u ∈ us, u.span.start.offset < u.span.stop.offset
  order : us.Pairwise fun u v => u.span.Precedes v.span

theorem Standing.sublist {text : List Char} {us vs : List Token} (standing : Standing text vs) (sub : us.Sublist vs) :
    Standing text us :=
  ⟨fun u member => standing.stand u (sub.subset member), fun u member => standing.size u (sub.subset member),
    standing.order.sublist sub⟩

/-- The range starts with a token and stops with one, which is no earlier. -/
def Span.OfTokens (us : List Token) (s : Span) : Prop :=
  ∃ u ∈ us, ∃ v ∈ us, s = ⟨u.span.start, v.span.stop⟩ ∧ u.span.start.offset < v.span.stop.offset

namespace Span.OfTokens

variable {us vs : List Token} {t : Span}

theorem mono (tokens : s.OfTokens us) (sub : us ⊆ vs) : s.OfTokens vs := by
  obtain ⟨u, first, v, last, same⟩ := tokens
  exact ⟨u, sub first, v, sub last, same⟩

theorem start_lt_stop (tokens : s.OfTokens us) : s.start.offset < s.stop.offset := by
  obtain ⟨u, -, v, -, rfl, less⟩ := tokens
  exact less

theorem inText (tokens : s.OfTokens us) (standing : Standing text us) : s.start.InText text ∧ s.stop.InText text := by
  obtain ⟨u, first, v, last, rfl, -⟩ := tokens
  exact ⟨(standing.stand u first).inText.1, (standing.stand v last).inText.2⟩

theorem holds (tokens : s.OfTokens us) (standing : Standing text us) : ∃ raw, s.Holds text raw := by
  obtain ⟨start, stop⟩ := tokens.inText standing
  exact exists_holds start stop (Nat.le_of_lt tokens.start_lt_stop)

theorem precedes (tokens : s.OfTokens us) (tokens' : t.OfTokens vs) (standing : Standing text (us ++ vs)) :
    s.Precedes t := by
  obtain ⟨-, -, v, last, rfl, -⟩ := tokens
  obtain ⟨u, first, -, -, rfl, -⟩ := tokens'
  exact (pairwise_append.1 standing.order).2.2 v last u first

/-- The cover of two ranges goes from token to token as well, and holds both. -/
theorem cover (tokens : s.OfTokens us) (tokens' : t.OfTokens us) (standing : Standing text us) :
    (s.cover t).OfTokens us ∧ (s.cover t).Contains s ∧ (s.cover t).Contains t := by
  obtain ⟨raw, valid⟩ := tokens.holds standing
  obtain ⟨raw', valid'⟩ := tokens'.holds standing
  have starts := Position.before_iff (tokens'.inText standing).1 (tokens.inText standing).1
  have stops := Position.before_iff (tokens.inText standing).2 (tokens'.inText standing).2
  have same : s.cover t = ⟨if t.start.before s.start then t.start else s.start,
      if s.stop.before t.stop then t.stop else s.stop⟩ := by
    simp [Span.cover, valid.isValid, valid'.isValid]
  have less := tokens.start_lt_stop
  obtain ⟨u, first, v, last, one, -⟩ := tokens
  obtain ⟨u', first', v', last', other, -⟩ := tokens'
  have start : ∃ w ∈ us, (s.cover t).start = w.span.start ∧ w.span.start.offset ≤ s.start.offset ∧
      w.span.start.offset ≤ t.start.offset := by
    rw [same]
    by_cases before : t.start.before s.start = true
    · refine ⟨u', first', by rw [if_pos before, other], ?_⟩
      have := starts.1 before
      rw [other] at this ⊢
      exact ⟨Nat.le_of_lt this, Nat.le_refl _⟩
    · refine ⟨u, first, by rw [if_neg before, one], ?_⟩
      have := mt starts.2 before
      rw [one] at this ⊢
      exact ⟨Nat.le_refl _, Nat.le_of_not_lt this⟩
  have stop : ∃ w ∈ us, (s.cover t).stop = w.span.stop ∧ s.stop.offset ≤ w.span.stop.offset ∧
      t.stop.offset ≤ w.span.stop.offset := by
    rw [same]
    by_cases before : s.stop.before t.stop = true
    · refine ⟨v', last', by rw [if_pos before, other], ?_⟩
      have := stops.1 before
      rw [other] at this ⊢
      exact ⟨Nat.le_of_lt this, Nat.le_refl _⟩
    · refine ⟨v, last, by rw [if_neg before, one], ?_⟩
      have := mt stops.2 before
      rw [one] at this ⊢
      exact ⟨Nat.le_refl _, Nat.le_of_not_lt this⟩
  obtain ⟨w, among, begins, low, low'⟩ := start
  obtain ⟨w', among', ends, high, high'⟩ := stop
  refine ⟨⟨w, among, w', among', by rw [← begins, ← ends], by omega⟩, ?_, ?_⟩
  · exact ⟨begins ▸ low, ends ▸ high⟩
  · exact ⟨begins ▸ low', ends ▸ high'⟩

/-- The range from the first token to the last holds all others. -/
theorem whole {first last : Token} (standing : Standing text us) (head : us.head? = some first)
    (tail : us.getLast? = some last) : OfTokens us ⟨first.span.start, last.span.stop⟩ ∧
      ∀ s, s.OfTokens us → Contains ⟨first.span.start, last.span.stop⟩ s := by
  have start : ∀ u ∈ us, first.span.start.offset ≤ u.span.start.offset := by
    intro u member
    obtain ⟨rest, rfl⟩ := head?_eq_some_iff.1 head
    obtain rfl | later := mem_cons.1 member
    · exact Nat.le_refl _
    · have small := standing.size first mem_cons_self
      have before : first.span.stop.offset ≤ u.span.start.offset := (pairwise_cons.1 standing.order).1 u later
      omega
  have stop : ∀ u ∈ us, u.span.stop.offset ≤ last.span.stop.offset := by
    intro u member
    obtain ⟨rest, rfl⟩ := getLast?_eq_some_iff.1 tail
    obtain early | final := mem_append.1 member
    · have small := standing.size last (by simp)
      have before : u.span.stop.offset ≤ last.span.start.offset :=
        (pairwise_append.1 standing.order).2.2 u early last mem_cons_self
      omega
    · exact mem_singleton.1 final ▸ Nat.le_refl _
  constructor
  · refine ⟨first, mem_of_head? head, last, mem_of_getLast? tail, rfl, ?_⟩
    have := start last (mem_of_getLast? tail)
    have := standing.size last (mem_of_getLast? tail)
    omega
  · rintro s ⟨u, among, v, among', rfl, -⟩
    exact ⟨start u among, stop v among'⟩

end Span.OfTokens

/-! ### Outlines -/

namespace Outline

/-- Every part has a range of the text, and the ranges of the parts below it stand in it. -/
inductive Nests (text : List Char) : Outline → Prop
  | node {m : Mark} {os : List Outline} (valid : m.span.isValid = true) (stands : ∃ raw, m.span.Holds text raw)
      (inside : ∀ o ∈ os, m.span.Contains o.mark.span) (all : ∀ o ∈ os, Nests text o) : Nests text (.node m os)

/-- A walk that goes everywhere meets the parts in the order in which they start. -/
def InOrder (os : List Outline) : Prop :=
  (visitsAll (fun _ => false) os).Pairwise fun m n => m.span.start.offset ≤ n.span.start.offset

instance (os : List Outline) : Decidable (InOrder os) :=
  inferInstanceAs (Decidable (List.Pairwise _ _))

theorem visitsAll_singleton (m : Mark) (os : List Outline) :
    visitsAll (fun _ => false) [.node m os] = m :: visitsAll (fun _ => false) os := by
  simp [visitsAll, visits]

variable {p : Outline}

theorem mark_mem_visitsAll (member : o ∈ os) : o.mark ∈ visitsAll (fun _ => false) os := by
  obtain ⟨front, back, rfl⟩ := append_of_mem member
  obtain ⟨m, cs⟩ := o
  simp [visitsAll_append, visitsAll, visits, mark]

theorem mem_visitsAll (member : m ∈ visitsAll (fun _ => false) os) : ∃ o ∈ os, m ∈ visits (fun _ => false) o := by
  induction os with
  | nil => cases member
  | cons o os ih =>
    rw [visitsAll] at member
    obtain first | later := mem_append.1 member
    · exact ⟨o, mem_cons_self, first⟩
    · obtain ⟨p, among, found⟩ := ih later
      exact ⟨p, mem_cons_of_mem o among, found⟩

/-- What a walk meets below a part stands in it. -/
theorem Nests.contains (nests : o.Nests text) : ∀ m ∈ visits (fun _ => false) o,
    o.mark.span.Contains m.span ∧ m.span.start.offset ≤ m.span.stop.offset := by
  induction nests with
  | @node m os valid stands inside all ih =>
    intro n met
    rw [visits, if_neg Bool.false_ne_true] at met
    obtain rfl | below := mem_cons.1 met
    · obtain ⟨raw, holds⟩ := stands
      exact ⟨.refl _, holds.start_le_stop⟩
    · obtain ⟨o, among, found⟩ := mem_visitsAll below
      obtain ⟨inner, order⟩ := ih o among n found
      exact ⟨(inside o among).trans inner, order⟩

theorem inOrder_nil : InOrder [] := .nil

/-- A part starts no later than what is below it. -/
theorem inOrder_node (nests : ∀ o ∈ os, o.Nests text) (inside : ∀ o ∈ os, m.span.Contains o.mark.span) :
    InOrder [.node m os] ↔ InOrder os := by
  rw [InOrder, visitsAll_singleton, pairwise_cons]
  refine and_iff_right fun n met => ?_
  obtain ⟨o, among, found⟩ := mem_visitsAll met
  exact ((inside o among).trans ((nests o among).contains n found).1).1

theorem inOrder_append (nests : ∀ o ∈ os, o.Nests text) (nests' : ∀ p ∈ ps, p.Nests text)
    (apart : ∀ o ∈ os, ∀ p ∈ ps, o.mark.span.Precedes p.mark.span) : InOrder (os ++ ps) ↔ InOrder os ∧ InOrder ps := by
  rw [InOrder, visitsAll_append, pairwise_append]
  refine ⟨fun both => ⟨both.1, both.2.1⟩, fun both => ⟨both.1, both.2, fun m met n met' => ?_⟩⟩
  obtain ⟨o, among, found⟩ := mem_visitsAll met
  obtain ⟨p, among', found'⟩ := mem_visitsAll met'
  obtain ⟨inner, order⟩ := (nests o among).contains m found
  obtain ⟨inner', -⟩ := (nests' p among').contains n found'
  have before : o.mark.span.stop.offset ≤ p.mark.span.start.offset := apart o among p among'
  have := inner.2
  have := inner'.1
  omega

/-- Parts that are walked after later ones. -/
theorem not_inOrder (member : o ∈ os) (member' : p ∈ ps) (later : p.mark.span.start.offset < o.mark.span.start.offset) :
    ¬ InOrder (os ++ ps) := by
  intro order
  rw [InOrder, visitsAll_append, pairwise_append] at order
  have := order.2.2 o.mark (mark_mem_visitsAll member) p.mark (mark_mem_visitsAll member')
  omega

theorem InOrder.sublist_append {front back : List Outline} (order : InOrder (front ++ (os ++ back))) : InOrder os := by
  rw [InOrder, visitsAll_append, visitsAll_append] at order
  exact order.sublist ((sublist_append_left _ _).trans (sublist_append_right _ _))

end Outline

/-! ### Straight trees -/

namespace Tree

/-- Whether a tree that `p` picks comes before one that `q` picks. -/
def comesBefore (p q : Tree → Bool) : List Tree → Bool
  | [] => false
  | t :: ts => p t && ts.any q || comesBefore p q ts

/-- Whether clauses were written in another order than they are walked in: an offset before the limit, or
how many rows there are before the expressions that they differ in. -/
def swaps (r : Rule) (ts : List Tree) : Bool :=
  match r with
  | .selectStmt => comesBefore (·.hasRule .offsetClause) (fun t => t.hasRule .limitClause && !t.has (.keyword .ALL)) ts
  | .simpleSelect => comesBefore (·.hasRule .topClause) (·.hasRule .exprList) ts
  | _ => false

mutual

/-- Whether all clauses were written in the order that they are walked in. The expressions of a type are
not walked. -/
def straight : Tree → Bool
  | .leaf _ => true
  | .node r _ _ _ cs => r = .typename || !swaps r cs && straightAll cs

def straightAll : List Tree → Bool
  | [] => true
  | t :: ts => t.straight && straightAll ts

end

theorem straightAll_iff (ts : List Tree) : straightAll ts = true ↔ ∀ t ∈ ts, t.straight = true := by
  induction ts with
  | nil => simp [straightAll]
  | cons t ts ih => simp [straightAll, ih]

theorem straight_iff (rule : t.rule? = some r) (type : r ≠ .typename) :
    t.straight = true ↔ swaps r t.children = false ∧ ∀ c ∈ t.children, c.straight = true := by
  cases t with
  | leaf => cases rule
  | node r f l x cs =>
    cases rule
    simp [straight, type, straightAll_iff, children]

end Tree

/-! ### Outlines where their trees are -/

/-- Where the leaves of the trees stand in a text in their order, the outlines go from leaf to leaf, nest,
and are walked in order just if the trees are straight. -/
def Sited (text : List Char) (ts : List Tree) (os : List Outline) : Prop :=
  Standing text (Tree.leavesAll ts) →
    (∀ o ∈ os, o.Nests text ∧ o.mark.span.OfTokens (Tree.leavesAll ts)) ∧
      (Outline.InOrder os ↔ ∀ t ∈ ts, t.straight = true)

namespace Tree

theorem leavesAll_sublist {us ts : List Tree} (sub : us.Sublist ts) : (leavesAll us).Sublist (leavesAll ts) := by
  induction sub with
  | slnil => exact .refl _
  | cons t _ ih => exact ih.trans (sublist_append_right _ _)
  | cons_cons t _ ih => exact List.Sublist.append_left ih _

theorem leaves_eq (rule : t.rule? = some r) : t.leaves = leavesAll t.children := by
  cases t with
  | leaf => cases rule
  | node => rfl

/-- A tree that covers tokens has the range from the first to the last. -/
theorem Bounded.whole {text : List Char} {t : Tree} (bounded : t.Bounded text) (some : t.leaves ≠ [])
    (standing : Standing text t.leaves) :
    t.span.OfTokens t.leaves ∧ ∀ s, Span.OfTokens t.leaves s → t.span.Contains s := by
  cases bounded with
  | leaf u => exact Span.OfTokens.whole standing rfl rfl
  | node edges _ =>
    obtain ⟨first, last, -⟩ := edges some
    exact Span.OfTokens.whole standing first last

end Tree

namespace Sited

variable {us vs ts : List Tree}

theorem nil : Sited text [] [] := fun _ => ⟨by simp, by simp [Outline.inOrder_nil]⟩

theorem append (first : Sited text us os) (second : Sited text vs ps) : Sited text (us ++ vs) (os ++ ps) := by
  intro standing
  rw [Tree.leavesAll_append] at standing ⊢
  obtain ⟨nested, ordered⟩ := first (standing.sublist (sublist_append_left _ _))
  obtain ⟨nested', ordered'⟩ := second (standing.sublist (sublist_append_right _ _))
  constructor
  · intro o member
    obtain before | after := mem_append.1 member
    · exact ⟨(nested o before).1, (nested o before).2.mono (subset_append_left _ _)⟩
    · exact ⟨(nested' o after).1, (nested' o after).2.mono (subset_append_right _ _)⟩
  · rw [Outline.inOrder_append (fun o member => (nested o member).1) (fun p member => (nested' p member).1)
      fun o member p member' => (nested o member).2.precedes (nested' p member').2 standing, ordered, ordered',
      forall_mem_append]

/-- Straight trees in between need not be walked. -/
theorem skip (sited : Sited text us os) (sub : us.Sublist ts) (others : ∀ t ∈ ts, t ∈ us ∨ t.straight = true) :
    Sited text ts os := by
  intro standing
  obtain ⟨nested, ordered⟩ := sited (standing.sublist (Tree.leavesAll_sublist sub))
  refine ⟨fun o member => ⟨(nested o member).1, (nested o member).2.mono (Tree.leavesAll_sublist sub).subset⟩, ?_⟩
  rw [ordered]
  refine ⟨fun all t member => ?_, fun all t member => all t (sub.subset member)⟩
  obtain inside | straight := others t member
  · exact all t inside
  · exact straight

theorem quiet (straight : t.straight = true) : Sited text [t] [] :=
  nil.skip (nil_sublist _) (by simpa using straight)

/-- The children of a node stand for it, unless its clauses are swapped. -/
theorem below (sited : Sited text t.children os) (rule : t.rule? = some r) (type : r ≠ .typename)
    (unswapped : Tree.swaps r t.children = false) : Sited text [t] os := by
  intro standing
  rw [Tree.leavesAll_singleton, Tree.leaves_eq rule] at standing ⊢
  obtain ⟨nested, ordered⟩ := sited standing
  refine ⟨nested, ?_⟩
  rw [ordered, forall_mem_singleton, Tree.straight_iff rule type, and_iff_right unswapped]

/-- Outlines go under a part that holds them. -/
theorem group (sited : Sited text ts os)
    (range : Standing text (Tree.leavesAll ts) → m.span.OfTokens (Tree.leavesAll ts) ∧
      ∀ o ∈ os, o.mark.span.OfTokens (Tree.leavesAll ts) → m.span.Contains o.mark.span) :
    Sited text ts [.node m os] := by
  intro standing
  obtain ⟨nested, ordered⟩ := sited standing
  obtain ⟨tokens, holds⟩ := range standing
  have inside : ∀ o ∈ os, m.span.Contains o.mark.span := fun o member => holds o member (nested o member).2
  have nests : ∀ o ∈ os, o.Nests text := fun o member => (nested o member).1
  obtain ⟨raw, valid⟩ := tokens.holds standing
  refine ⟨fun o member => ?_, (Outline.inOrder_node nests inside).trans ordered⟩
  rw [mem_singleton.1 member]
  exact ⟨.node valid.isValid ⟨raw, valid⟩ inside nests, tokens⟩

/-- Outlines of a node that covers tokens go under a part with its range. -/
theorem enclose (sited : Sited text [t] os) (bounded : t.Bounded text) (some : t.leaves ≠ [])
    (range : m.span = t.span) : Sited text [t] [.node m os] := by
  refine sited.group fun standing => ?_
  rw [Tree.leavesAll_singleton] at standing ⊢
  obtain ⟨tokens, holds⟩ := bounded.whole some standing
  rw [range]
  exact ⟨tokens, fun o _ inside => holds _ inside⟩

/-- What is sited at a tree goes under a part that covers the tree and one behind it. -/
theorem named {u : Tree} (sited : Sited text [t] os) (bounded : t.Bounded text) (some : t.leaves ≠ [])
    (straight : u.straight = true) (bounded' : u.Bounded text) (some' : u.leaves ≠ [])
    (range : m.span = t.span.cover u.span) : Sited text ([t] ++ [u]) [.node m os] := by
  have both : Sited text ([t] ++ [u]) os := by simpa using sited.append (quiet straight)
  refine both.group fun standing => ?_
  rw [Tree.leavesAll_append, Tree.leavesAll_singleton, Tree.leavesAll_singleton] at standing ⊢
  obtain ⟨one, inner⟩ := bounded.whole some (standing.sublist (sublist_append_left _ _))
  obtain ⟨two, -⟩ := bounded'.whole some' (standing.sublist (sublist_append_right _ _))
  obtain ⟨tokens, left, -⟩ := (one.mono (subset_append_left _ _)).cover
    (two.mono (subset_append_right _ _)) standing
  rw [range]
  refine ⟨tokens, fun o member _ => ?_⟩
  have below := ((sited (by simpa using standing.sublist (sublist_append_left _ _))).1 o member).2
  exact left.trans (inner _ (by simpa using below))

/-- Parts of earlier trees that are walked after those of later trees are not met in order. -/
theorem not_inOrder (first : Sited text us os) (second : Sited text vs ps)
    (standing : Standing text (Tree.leavesAll (us ++ vs))) (some : os ≠ []) (some' : ps ≠ []) :
    ¬ Outline.InOrder (ps ++ os) := by
  rw [Tree.leavesAll_append] at standing
  obtain ⟨o, member⟩ := exists_mem_of_ne_nil _ some
  obtain ⟨p, member'⟩ := exists_mem_of_ne_nil _ some'
  have early := ((first (standing.sublist (sublist_append_left _ _))).1 o member).2
  have late := ((second (standing.sublist (sublist_append_right _ _))).1 p member').2
  have apart : o.mark.span.stop.offset ≤ p.mark.span.start.offset := early.precedes late standing
  exact Outline.not_inOrder member' member (Nat.lt_of_lt_of_le early.start_lt_stop apart)

end Sited

/-! ### Outlines drawn from trees -/

/-- The range of a part that is no table. -/
def Mark.plainSpan? (m : Mark) : Option Span := if m.kind = .tableRef then none else some m.span

theorem Mark.of_plainSpan? (range : m.plainSpan? = some s) : m.kind ≠ .tableRef ∧ m.span = s := by
  unfold plainSpan? at range
  split at range
  · cases range
  · next other => exact ⟨other, Option.some.inj range⟩

/-- Nothing in the tree is walked. -/
def Tree.Still (m : ReadMode) (t : Tree) : Prop := t.straight = true ∧ t.references m = 0

theorem Tree.Still.of_isLeaf {m : ReadMode} (leaf : t.isLeaf = true) : t.Still m := by
  cases t with
  | leaf => exact ⟨rfl, references_leaf m _⟩
  | node => cases leaf

/-- The nodes of a tree have the ranges that they cover in the text. -/
structure Tree.Located (text : List Char) (t : Tree) : Prop where
  bounded : t.Bounded text
  framed : t.Framed

theorem Tree.Located.child {c : Tree} (located : t.Located text) (member : c ∈ t.children) : c.Located text :=
  ⟨located.bounded.child member, located.framed.child member⟩

/-- The outlines have the tables of the trees and are where the trees are. -/
structure Drawn (text : List Char) (m : ReadMode) (ts : List Tree) (os : List Outline) : Prop where
  tables : Outline.references os = Tree.referencesOf m ts
  sited : Sited text ts os

/-- The outlines are drawn from the trees, whatever text these are located in. -/
structure Sketched (m : ReadMode) (ts : List Tree) (os : List Outline) : Prop where
  tables : Outline.references os = Tree.referencesOf m ts
  sited : ∀ {text}, (∀ t ∈ ts, t.Located text) → Sited text ts os

namespace Sketched

variable {m : ReadMode} {u : Tree} {us vs ts : List Tree} {p : Outline} {mark : Mark}

theorem nil : Sketched m [] [] := ⟨rfl, fun _ => .nil⟩

theorem append (first : Sketched m us os) (second : Sketched m vs ps) : Sketched m (us ++ vs) (os ++ ps) := by
  refine ⟨by rw [Outline.references_append, Tree.referencesOf_append, first.tables, second.tables], fun located => ?_⟩
  obtain ⟨one, two⟩ := forall_mem_append.1 located
  exact (first.sited one).append (second.sited two)

/-- Still trees in between need not be walked. -/
theorem skip {p : Tree → Bool} (drawn : Sketched m (ts.filter p) os) (others : ∀ t ∈ ts, p t = true ∨ t.Still m) :
    Sketched m ts os := by
  refine ⟨?_, fun located => ?_⟩
  · rw [drawn.tables, Tree.referencesOf_filter m fun t member => (others t member).imp_right And.right]
  · refine (drawn.sited fun t member => located t (mem_filter.1 member).1).skip filter_sublist fun t member => ?_
    exact (others t member).imp (fun picked => mem_filter.2 ⟨member, picked⟩) And.left

theorem quiet (still : t.Still m) : Sketched m [t] [] :=
  ⟨by simp [still.2], fun _ => .quiet still.1⟩

/-- A tree that is not walked goes behind the others. -/
theorem past (first : Sketched m us os) (still : u.Still m) : Sketched m (us ++ [u]) os := by
  simpa using first.append (quiet still)

/-- The children of a node stand for it, unless its clauses are swapped. -/
theorem below (drawn : Sketched m t.children os) (rule : t.rule? = some r)
    (plain : r ≠ .typename ∧ r.isRelation = false) (unswapped : Tree.swaps r t.children = false) :
    Sketched m [t] os := by
  refine ⟨by simp [drawn.tables, Tree.references_plain m rule plain.1 plain.2], fun located => ?_⟩
  exact (drawn.sited fun c => (located t mem_cons_self).child).below rule plain.1 unswapped

/-- Outlines go under a part that is no table and holds them. -/
theorem group (drawn : Sketched m ts os) (range : mark.plainSpan? = some s)
    (tokens : ∀ {text}, (∀ t ∈ ts, t.Located text) → Standing text (Tree.leavesAll ts) →
      s.OfTokens (Tree.leavesAll ts) ∧ ∀ o ∈ os, o.mark.span.OfTokens (Tree.leavesAll ts) → s.Contains o.mark.span) :
    Sketched m ts [.node mark os] := by
  obtain ⟨other, rfl⟩ := Mark.of_plainSpan? range
  exact ⟨(Outline.references_node mark os other).trans drawn.tables,
    fun located => (drawn.sited located).group (tokens located)⟩

/-- Outlines of a node that covers tokens go under a part with its range. -/
theorem enclose (drawn : Sketched m [t] os) (some : t.Framed → t.leaves ≠ [])
    (range : mark.plainSpan? = .some t.span) : Sketched m [t] [.node mark os] := by
  obtain ⟨other, same⟩ := Mark.of_plainSpan? range
  refine ⟨(Outline.references_node mark os other).trans drawn.tables, fun located => ?_⟩
  have here := located t mem_cons_self
  exact (drawn.sited located).enclose here.bounded (some here.framed) same

/-- Two parts go under one that covers them. -/
theorem pair (first : Sketched m us [o]) (second : Sketched m vs [p])
    (range : mark.plainSpan? = some (o.mark.span.cover p.mark.span)) : Sketched m (us ++ vs) [.node mark [o, p]] := by
  refine (first.append second).group range fun located standing => ?_
  obtain ⟨front, back⟩ := forall_mem_append.1 located
  rw [Tree.leavesAll_append] at standing ⊢
  have one := ((first.sited front (standing.sublist (sublist_append_left _ _))).1 o mem_cons_self).2
  have two := ((second.sited back (standing.sublist (sublist_append_right _ _))).1 p mem_cons_self).2
  obtain ⟨tokens, left, right⟩ := (one.mono (subset_append_left _ _)).cover
    (two.mono (subset_append_right _ _)) standing
  exact ⟨tokens, by simpa using ⟨fun _ => left, fun _ => right⟩⟩

/-- A part goes under one that covers it and a tree behind it. -/
theorem tail (first : Sketched m us [o]) (still : u.Still m) (some : u.leaves ≠ [])
    (range : mark.plainSpan? = .some (o.mark.span.cover u.span)) : Sketched m (us ++ [u]) [.node mark [o]] := by
  refine (first.past still).group range fun located standing => ?_
  obtain ⟨front, back⟩ := forall_mem_append.1 located
  rw [Tree.leavesAll_append, Tree.leavesAll_singleton] at standing ⊢
  have one := ((first.sited front (standing.sublist (sublist_append_left _ _))).1 o mem_cons_self).2
  have two := ((back u mem_cons_self).bounded.whole some (standing.sublist (sublist_append_right _ _))).1
  obtain ⟨tokens, left, -⟩ := (one.mono (subset_append_left _ _)).cover
    (two.mono (subset_append_right _ _)) standing
  exact ⟨tokens, by simpa using fun _ => left⟩

/-- A part goes under another with the same range. -/
theorem under (drawn : Sketched m us [o]) (range : mark.plainSpan? = some o.mark.span) :
    Sketched m us [.node mark [o]] := by
  refine drawn.group range fun located standing => ?_
  exact ⟨((drawn.sited located standing).1 o mem_cons_self).2, by simpa using fun _ => Span.Contains.refl _⟩

end Sketched
end TableLineage
