import TableLineage.Proofs.Grammar.View
import TableLineage.Proofs.Statement.Alike
import TableLineage.Proofs.Statement.Firm
import Mathlib.Data.List.Forall2

/-! Reading a tree under a view that keeps the names: the tree and what is seen of it read alike, and
a firm tree is read as a complete phrase or refused. A node is read with the readings of its children,
so it is enough that the children are read so. -/
namespace TableLineage

open List

theorem Agree.bind {ε δ α β γ κ : Type} {R : α → β → Prop} {S : γ → κ → Prop} {x : Except ε α} {y : Except δ β}
    {f : α → Except ε γ} {g : β → Except δ κ} (first : Agree R x y) (rest : ∀ a b, R a b → Agree S (f a) (g b)) :
    Agree S (x >>= f) (y >>= g) := by
  cases first with
  | error => exact .error
  | ok related => exact rest _ _ related

/-- Both computations give related results, or both fail. If the tree is firm they fail only to say what is
wrong with it and where. -/
inductive InStep (firm : Prop) {α β : Type} (R : α → β → Prop) : Outcome α → Outcome β → Prop
  | ok {a : α} {b : β} (related : R a b) : InStep firm R (.ok a) (.ok b)
  | refused {c c' : String} {s s' : Span} {p p' : Problem} :
      InStep firm R (.error (.at c s p)) (.error (.at c' s' p'))
  | failed {e e' : Mismatch} (loose : ¬ firm) : InStep firm R (.error e) (.error e')

namespace InStep

variable {firm : Prop} {α β γ κ : Type} {R : α → β → Prop} {S : γ → κ → Prop} {x : Outcome α} {y : Outcome β}

theorem bind {f : α → Outcome γ} {g : β → Outcome κ} (first : InStep firm R x y)
    (rest : ∀ a b, R a b → InStep firm S (f a) (g b)) : InStep firm S (x >>= f) (y >>= g) := by
  cases first with
  | ok related => exact rest _ _ related
  | refused => exact .refused
  | failed loose => exact .failed loose

theorem agree (both : InStep firm R x y) : Agree R x y := by
  cases both with
  | ok related => exact .ok related
  | refused | failed => exact .error

theorem answered {P : α → Prop} (both : InStep True R x y) (holds : ∀ a b, R a b → P a) : Answered P x := by
  cases both with
  | ok related => exact .ok (holds _ _ related)
  | refused => exact .refused
  | failed loose => exact absurd trivial loose

end InStep

open Phrase (Complete)

/-- Phrases that are alike, complete ones if they are read from a firm tree. -/
structure Phrase.Twin (firm : Prop) {c : Category} (p p' : Phrase c) : Prop where
  alike : p.Alike p'
  complete : firm → p.Complete

open Phrase (Twin)

theorem Phrase.Twin.binary {firm : Prop} {l l' r r' : Expr} {s s' : Span} {op op' : BinaryOp} (left : l.Twin firm l')
    (right : r.Twin firm r') : Twin (c := .expr) firm (.binary s l op r) (.binary s' l' op' r') :=
  ⟨.binary left.alike right.alike, fun firm => ⟨left.complete firm, right.complete firm⟩⟩

/-- The two readings go together. -/
abbrev Tally (firm : Prop) {c : Category} (x y : Outcome (Phrase c)) : Prop := InStep firm (Twin firm) x y

theorem InStep.hole {firm : Prop} {e e' : Expr} (twin : e.Twin firm e') (hole : e'.isHole) :
    Tally firm (.ok .hole : Outcome Expr) (.ok .hole) := by
  refine .ok ⟨.hole, fun firm => ?_⟩
  have shown := (twin.complete firm).not_hole
  rw [twin.alike.isHole_eq, hole] at shown
  cases shown

section

variable {α β : Type} {R : α → β → Prop} {p : α → Bool} {q : β → Bool} (same : ∀ a b, R a b → p a = q b)
  {xs : List α} {ys : List β} (related : List.Forall₂ R xs ys)

include same related

theorem forall₂_filter : List.Forall₂ (fun a b => R a b ∧ p a) (xs.filter p) (ys.filter q) := by
  induction related with
  | nil => exact .nil
  | @cons a b _ _ head _ ih =>
    rw [filter_cons, filter_cons, same a b head]
    split
    · next kept => exact .cons ⟨head, (same a b head).trans kept⟩ ih
    · exact ih

theorem rel_find? : Option.Rel R (xs.find? p) (ys.find? q) := by
  induction related with
  | nil => exact .none
  | @cons a b _ _ head _ ih =>
    rw [find?_cons, find?_cons, same a b head]
    split
    · exact .some head
    · exact ih

end

variable {firm : Prop} {v : Grammar.View}

namespace Tree

variable (t : Tree)

@[simp] theorem isLeaf_seen : (t.seen v).isLeaf = t.isLeaf := by
  cases t <;> simp [seen, isLeaf]

@[simp] theorem rule?_seen : (t.seen v).rule? = t.rule? := by
  cases t <;> simp [seen, rule?]

@[simp] theorem hasRule_seen (r : Rule) : (t.seen v).hasRule r = t.hasRule r := by
  simp [hasRule]

@[simp] theorem is_seen (k : Kind) : (t.seen v).is k = t.is k := by
  cases t <;> simp [seen, is, v.kind]

@[simp] theorem token_seen : (t.seen v).token = v.see t.token := by
  cases t with
  | leaf => simp [seen, token]
  | node => simp [seen, token, v.none]

theorem kind_seen : (t.seen v).token.kind = t.token.kind := by
  rw [token_seen, v.kind]

@[simp] theorem children_seen : (t.seen v).children = t.children.map (seen v) := by
  cases t with
  | leaf => simp [seen, children]
  | node => simp [seen, children, seenAll_eq_map]

@[simp] theorem child?_seen (r : Rule) : (t.seen v).child? r = (t.child? r).map (seen v) := by
  simp [child?, find?_map, Function.comp_def]

@[simp] theorem childrenOf_seen (r : Rule) : (t.seen v).childrenOf r = (t.childrenOf r).map (seen v) := by
  simp [childrenOf, filter_map, Function.comp_def]

@[simp] theorem leaf?_seen (k : Kind) : (t.seen v).leaf? k = (t.leaf? k).map (seen v) := by
  simp [leaf?, find?_map, Function.comp_def]

@[simp] theorem has_seen (k : Kind) : (t.seen v).has k = t.has k := by
  simp [has, Function.comp_def]

theorem need_seen (r : Rule) (construct : String) :
    InStep firm (fun c d => d = c.seen v) (t.need r construct) ((t.seen v).need r construct) := by
  rw [need, need, child?_seen]
  cases t.child? r with
  | none => exact .refused
  | some c => exact .ok rfl

end Tree

/-- The view does not change what a token names. -/
def Grammar.View.KeepsNames (v : Grammar.View) (m : ReadMode) : Prop := ∀ t, m.name (v.see t) = m.name t

namespace Grammar.View.KeepsNames

variable {m : ReadMode} (keeps : v.KeepsNames m) (t : Tree)

include keeps

theorem qualifiedName : m.qualifiedName (t.seen v) = m.qualifiedName t := by
  simp [ReadMode.qualifiedName, filter_map, Function.comp_def, keeps _]

theorem nameList : m.nameList (t.seen v) = m.nameList t := by
  simp [ReadMode.nameList, filter_map, Function.comp_def, keeps _]

theorem columnList : m.columnList (t.seen v) = m.columnList t := by
  rw [ReadMode.columnList, ReadMode.columnList, Tree.child?_seen]
  cases t.child? .columnList with
  | none => rfl
  | some c =>
    simp only [Option.map_some, Option.bind_some, Tree.child?_seen]
    cases c.child? .nameList with
    | none => rfl
    | some names => exact keeps.nameList names

theorem aliasName : m.aliasName (t.seen v) = m.aliasName t := by
  rw [ReadMode.aliasName, ReadMode.aliasName, Tree.child?_seen]
  cases t.child? .aliasClause with
  | none => rfl
  | some a =>
    simp only [Option.map_some, Tree.children_seen, find?_map, Function.comp_def, Tree.isLeaf_seen, Tree.is_seen]
    cases a.children.find? fun c => c.isLeaf && !c.is (.keyword .AS) with
    | none => rfl
    | some c => simp [keeps _]

end Grammar.View.KeepsNames

/-- A child and what is seen of it: the two read alike in every category that the child may be read in. -/
structure Kid.Seen (firm : Prop) (v : Grammar.View) (k k' : Kid) : Prop where
  tree : k'.tree = k.tree.seen v
  steady : firm → k.tree.isAbrupt = false
  read : ∀ c, k.tree.answers c → Tally firm (k.read c) (k'.read c)

/-- A node and what is seen of it, their children opened, under a view that keeps the names. -/
structure Opened.Seen (firm : Prop) (v : Grammar.View) (o o' : Opened) : Prop where
  mode : o'.mode = o.mode
  sighted : firm → o.mode.blind = false
  names : v.KeepsNames o.mode
  tree : o'.tree = o.tree.seen v
  full : firm → o.tree.isHollow = false
  steady : firm → o.tree.isAbrupt = false
  trees : o.kids.map Kid.tree = o.tree.children
  kids : List.Forall₂ (Kid.Seen firm v) o.kids o'.kids

theorem tally_readEach {c : Category} {P : Kid → Kid → Prop} {read read' : Kid → Outcome (Phrase c)}
    (each : ∀ k k', P k k' → Tally firm (read k) (read' k')) {ks ks' : List Kid} (kids : List.Forall₂ P ks ks') :
    Tally firm (readEach read ks) (readEach read' ks') := by
  induction kids with
  | nil => exact .ok ⟨.nil, fun _ => trivial⟩
  | cons pair _ ih =>
    refine (each _ _ pair).bind fun _ _ one => ih.bind fun _ _ rest => ?_
    exact .ok ⟨.cons one.1 rest.1, fun firm => ⟨one.2 firm, rest.2 firm⟩⟩

namespace Opened.Seen

variable {o o' : Opened} {k k' : Kid} {r : Rule} {c : Category} (seen : o.Seen firm v o')

include seen

theorem rule? : o'.tree.rule? = o.tree.rule? := by
  rw [seen.tree, Tree.rule?_seen]

theorem has (k : Keyword) : o'.has k = o.has k := by
  rw [Opened.has, Opened.has, seen.tree, Tree.has_seen]

theorem kid? (r : Rule) : Option.Rel (Kid.Seen firm v) (o.kid? r) (o'.kid? r) :=
  rel_find? (fun _ _ pair => by rw [pair.tree, Tree.hasRule_seen]) seen.kids

theorem kidsOf (r : Rule) :
    List.Forall₂ (fun k k' => k.Seen firm v k' ∧ k.tree.hasRule r) (o.kidsOf r) (o'.kidsOf r) :=
  forall₂_filter (fun _ _ pair => by rw [pair.tree, Tree.hasRule_seen]) seen.kids

theorem nodes : List.Forall₂ (Kid.Seen firm v) o.nodes o'.nodes :=
  (forall₂_filter (fun _ _ pair => by rw [pair.tree, Tree.isLeaf_seen]) seen.kids).imp fun _ _ => And.left

theorem need (r : Rule) (construct : String) :
    InStep firm (Kid.Seen firm v) (o.need r construct) (o'.need r construct) := by
  unfold Opened.need
  generalize o.kid? r = x, o'.kid? r = y, seen.kid? r = both
  cases both with
  | none => exact .refused
  | some pair => exact .ok pair

theorem needed (r : Rule) (construct : String) (c : Category) (may : ∀ t : Tree, t.answers c) :
    Tally firm (o.need r construct >>= (·.read c)) (o'.need r construct >>= (·.read c)) :=
  (seen.need r construct).bind fun k _ pair => pair.read c (may k.tree)

theorem through {γ κ : Type} {R : γ → κ → Prop} {f : Phrase c → Outcome γ} {g : Phrase c → Outcome κ} (r : Rule)
    (construct : String) (may : ∀ t : Tree, t.answers c) (rest : ∀ p p', p.Twin firm p' → InStep firm R (f p) (g p')) :
    InStep firm R (o.need r construct >>= fun k => k.read c >>= f) (o'.need r construct >>= fun k => k.read c >>= g) :=
  (seen.need r construct).bind fun k _ pair => (pair.read c (may k.tree)).bind rest

theorem optional (r : Rule) (c : Category) (may : ∀ t : Tree, t.hasRule r → t.answers c) :
    Tally firm (o.optional r c) (o'.optional r c) := by
  unfold Opened.optional
  generalize found : o.kid? r = x, o'.kid? r = y, seen.kid? r = both
  cases both with
  | none => exact .ok ⟨.none, fun _ => trivial⟩
  | some pair =>
    have rule := find?_some (p := fun k : Kid => k.tree.hasRule r) found
    exact (pair.read c (may _ rule)).bind fun _ _ twin => .ok ⟨.some twin.1, twin.2⟩

theorem manyOf (r : Rule) (c : Category) (may : ∀ t : Tree, t.answers (.many c)) :
    Tally firm (o.manyOf r c) (o'.manyOf r c) := by
  unfold Opened.manyOf
  generalize o.kid? r = x, o'.kid? r = y, seen.kid? r = both
  cases both with
  | none => exact .ok ⟨.nil, fun _ => trivial⟩
  | some pair => exact pair.read _ (may _)

theorem each (r : Rule) (c : Category) (may : ∀ t : Tree, t.hasRule r → t.answers c) :
    Tally firm (readEach (·.read c) (o.kidsOf r)) (readEach (·.read c) (o'.kidsOf r)) :=
  tally_readEach (fun _ _ pair => pair.1.read c (may _ pair.2)) (seen.kidsOf r)

theorem expr (pair : k.Seen firm v k') : Tally firm (o.expr k) (o'.expr k') := by
  rw [Opened.expr, Opened.expr, seen.mode, pair.tree, Tree.rule?_seen]
  split
  · next blind => exact .ok ⟨.hole, fun firm => absurd blind (by simp [seen.sighted firm])⟩
  · split
    · exact pair.read .expr rfl
    · exact .refused

theorem operand (pair : k.Seen firm v k') {next next' : Expr → Outcome Expr}
    (rest : ∀ e e' : Expr, e.Twin firm e' → Tally firm (next e) (next' e')) :
    Tally firm (o.operand k next) (o'.operand k' next') := by
  refine (seen.expr pair).bind fun e e' twin => ?_
  rw [twin.1.isHole_eq]
  split
  · next hole => exact .hole twin hole
  · exact rest e e' twin

theorem exprs : Tally firm o.exprs o'.exprs := tally_readEach (fun _ _ pair => seen.expr pair) seen.nodes

theorem listed : Tally firm o.listed o'.listed := seen.manyOf .exprList .expr fun _ => rfl

theorem firstExpr (construct : String) : Tally firm (o.firstExpr construct) (o'.firstExpr construct) := by
  unfold Opened.firstExpr
  generalize o.nodes = ks, o'.nodes = ks', seen.nodes = kids
  cases kids with
  | nil => exact .refused
  | cons pair _ => exact seen.expr pair

theorem steady_of_mem (firm : firm) (t : Tree) (member : t ∈ o.tree.children) : t.isAbrupt = false := by
  obtain ⟨k, inside, rfl⟩ := mem_map.1 (seen.trees ▸ member)
  exact ((forall₂_and_left _ _).1 (seen.kids.imp fun _ _ pair => ⟨pair.steady firm, pair⟩)).1 k inside

/-- A reading that starts from a child that a firm node does not lack. -/
theorem childless {α β : Type} {R : α → β → Prop} (rule : o.tree.rule? = some r) (starts : r.startsFromChild)
    (none : o.kids = []) : InStep firm R (.error .noChild) (.error .noChild) := by
  refine .failed fun firm => Tree.children_ne_nil_of_not_abrupt (seen.steady firm) rule starts ?_
  rw [← seen.trees, none, map_nil]

end Opened.Seen
end TableLineage
