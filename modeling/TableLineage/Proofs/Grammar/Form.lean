import TableLineage.Grammar.Part
import TableLineage.Tree.Basic

/-! Forms: which lists of children a node may have. A form is a regular expression over
leaves and nodes, where leaves count with their class and nodes with their rule. -/
namespace TableLineage.Grammar

open List

deriving instance DecidableEq for Class

inductive Form where
  /-- No list at all. -/
  | never
  /-- The empty list. -/
  | empty
  /-- One leaf, of the class if one is given. -/
  | leaf (c : Option Class)
  /-- One node from one of the rules. -/
  | node (rs : List Rule)
  | seq (a b : Form)
  | alt (a b : Form)
  | many (a : Form)
  deriving DecidableEq, Repr

/-- A leaf of the class, if one is given. -/
def IsLeaf (c : Option Class) (t : Tree) : Prop := ∃ tok, t = .leaf tok ∧ ∀ k ∈ c, k.holds tok.toLexeme

/-- A node from one of the rules. -/
def IsNode (rs : List Rule) (t : Tree) : Prop := ∃ r ∈ rs, t.rule? = some r

namespace Form

def Matches : Form → List Tree → Prop
  | never, _ => False
  | empty, ts => ts = []
  | leaf c, ts => ∃ t, ts = [t] ∧ IsLeaf c t
  | node rs, ts => ∃ t, ts = [t] ∧ IsNode rs t
  | seq a b, ts => ∃ us vs, ts = us ++ vs ∧ a.Matches us ∧ b.Matches vs
  | alt a b, ts => a.Matches ts ∨ b.Matches ts
  | many a, ts => ∃ tss : List (List Tree), ts = tss.flatten ∧ ∀ us ∈ tss, a.Matches us

/-! ### Building forms -/

/-- One form after the other, associated to the right. -/
def followedBy : Form → Form → Form
  | never, _ => never
  | empty, b => b
  | seq a b, c => seq a (b.followedBy c)
  | _, never => never
  | a, empty => a
  | a, b => seq a b

/-- One form or the other; nodes are put together. -/
def either : Form → Form → Form
  | never, b => b
  | a, never => a
  | node rs, node ss => node (rs ++ ss.filter fun s => !rs.contains s)
  | a, b => if a = b then a else alt a b

theorem Matches.followedBy {a b : Form} {us vs : List Tree} (first : a.Matches us) (second : b.Matches vs) :
    (a.followedBy b).Matches (us ++ vs) := by
  fun_induction Form.followedBy a b generalizing us with
  | case1 => exact first
  | case2 => simpa [show us = [] from first] using second
  | case3 a b c ih =>
    obtain ⟨front, back, rfl, head, tail⟩ := first
    exact ⟨front, back ++ vs, append_assoc .., head, ih tail second⟩
  | case4 => exact second
  | case5 => simpa [show vs = [] from second] using first
  | case6 => exact ⟨us, vs, rfl, first, second⟩

theorem matches_either {a b : Form} {ts : List Tree} (one : a.Matches ts ∨ b.Matches ts) :
    (a.either b).Matches ts := by
  fun_cases Form.either a b with
  | case1 => simpa [Matches] using one
  | case2 => simpa [Matches] using one
  | case3 rs ss =>
    obtain ⟨t, rfl, r, member, same⟩ | ⟨t, rfl, r, member, same⟩ := one
    · exact ⟨t, rfl, r, mem_append_left _ member, same⟩
    · refine ⟨t, rfl, r, ?_, same⟩
      by_cases known : r ∈ rs
      · exact mem_append_left _ known
      · simp [member, known]
  | case4 => simpa using one
  | case5 => exact one

theorem Matches.many_nil {a : Form} : (many a).Matches [] := ⟨[], rfl, by simp⟩

theorem Matches.many_append {a : Form} {us vs : List Tree} (first : a.Matches us) (rest : (many a).Matches vs) :
    (many a).Matches (us ++ vs) := by
  obtain ⟨tss, rfl, all⟩ := rest
  exact ⟨us :: tss, rfl, by simpa using ⟨first, all⟩⟩

/-! ### What all matches of a form share -/

/-- A leaf of one of the classes that `l` picks, or a node from one of the rules that `n` picks. -/
def Picked (l : Option Class → Bool) (n : Rule → Bool) (t : Tree) : Prop :=
  (∃ c, l c ∧ IsLeaf c t) ∨ ∃ r, n r ∧ t.rule? = some r

section

variable {l : Option Class → Bool} {n : Rule → Bool} {f : Form} {ts : List Tree}

theorem picked_of_node {rs : List Rule} {t : Tree} (all : rs.all n) (shape : IsNode rs t) : Picked l n t := by
  obtain ⟨r, member, same⟩ := shape
  exact .inr ⟨r, all_eq_true.1 all r member, same⟩

/-- Whether every match has a child that is picked. -/
def surely (l : Option Class → Bool) (n : Rule → Bool) : Form → Bool
  | never => true
  | empty | many _ => false
  | leaf c => l c
  | node rs => rs.all n
  | seq a b => a.surely l n || b.surely l n
  | alt a b => a.surely l n && b.surely l n

theorem exists_of_surely (sure : f.surely l n) (shape : f.Matches ts) : ∃ t ∈ ts, Picked l n t := by
  induction f generalizing ts with
  | never => exact shape.elim
  | empty | many => cases sure
  | leaf c =>
    obtain ⟨t, rfl, leaf⟩ := shape
    exact ⟨t, mem_singleton_self t, .inl ⟨c, sure, leaf⟩⟩
  | node rs =>
    obtain ⟨t, rfl, node⟩ := shape
    exact ⟨t, mem_singleton_self t, picked_of_node sure node⟩
  | seq a b first second =>
    obtain ⟨us, vs, rfl, left, right⟩ := shape
    obtain found | found := Bool.or_eq_true_iff.1 sure
    · obtain ⟨t, member, picked⟩ := first found left
      exact ⟨t, mem_append_left _ member, picked⟩
    · obtain ⟨t, member, picked⟩ := second found right
      exact ⟨t, mem_append_right _ member, picked⟩
  | alt a b first second =>
    obtain ⟨one, other⟩ := Bool.and_eq_true_iff.1 sure
    obtain left | right := shape
    · exact first one left
    · exact second other right

/-- Whether all children of every match are picked. -/
def always (l : Option Class → Bool) (n : Rule → Bool) : Form → Bool
  | never | empty => true
  | leaf c => l c
  | node rs => rs.all n
  | seq a b | alt a b => a.always l n && b.always l n
  | many a => a.always l n

theorem forall_of_always (all : f.always l n) (shape : f.Matches ts) : ∀ t ∈ ts, Picked l n t := by
  induction f generalizing ts with
  | never => exact shape.elim
  | empty => simp [show ts = [] from shape]
  | leaf c =>
    obtain ⟨t, rfl, leaf⟩ := shape
    simpa using .inl ⟨c, all, leaf⟩
  | node rs =>
    obtain ⟨t, rfl, node⟩ := shape
    simpa using picked_of_node all node
  | seq a b first second =>
    obtain ⟨us, vs, rfl, left, right⟩ := shape
    obtain ⟨one, other⟩ := Bool.and_eq_true_iff.1 all
    intro t member
    obtain before | after := mem_append.1 member
    · exact first one left t before
    · exact second other right t after
  | alt a b first second =>
    obtain ⟨one, other⟩ := Bool.and_eq_true_iff.1 all
    obtain left | right := shape
    · exact first one left
    · exact second other right
  | many a ih =>
    obtain ⟨tss, rfl, each⟩ := shape
    intro t member
    obtain ⟨us, among, inside⟩ := mem_flatten.1 member
    exact ih all (each us among) t inside

theorem isNode_of_always (rs : List Rule) (all : f.always (fun _ => false) rs.contains) (shape : f.Matches ts) :
    ∀ t ∈ ts, IsNode rs t := by
  intro t member
  obtain ⟨_, no, _⟩ | ⟨r, among, same⟩ := forall_of_always all shape t member
  · cases no
  · exact ⟨r, contains_iff_mem.1 among, same⟩

theorem isLeaf_of_rule {t : Tree} {r : Rule} (same : t.rule? = some r) : t.isLeaf = false := by
  cases t with
  | leaf => cases same
  | node => rfl

/-- A form without its leaves. -/
def bare : Form → Form
  | leaf _ => empty
  | seq a b => a.bare.followedBy b.bare
  | alt a b => a.bare.either b.bare
  | many a => if a.bare = empty then empty else many a.bare
  | f => f

theorem Matches.bare (shape : f.Matches ts) : f.bare.Matches (ts.filter (!·.isLeaf)) := by
  induction f generalizing ts with
  | never => exact shape
  | empty => simp [show ts = [] from shape, Form.bare, Matches]
  | leaf c =>
    obtain ⟨_, rfl, tok, rfl, _⟩ := shape
    simp [Form.bare, Matches, Tree.isLeaf]
  | node rs =>
    obtain ⟨t, rfl, r, member, same⟩ := shape
    exact ⟨t, by simp [isLeaf_of_rule same], r, member, same⟩
  | seq a b first second =>
    obtain ⟨us, vs, rfl, left, right⟩ := shape
    rw [filter_append]
    exact (first left).followedBy (second right)
  | alt a b first second =>
    obtain left | right := shape
    · exact matches_either (.inl (first left))
    · exact matches_either (.inr (second right))
  | many a ih =>
    obtain ⟨tss, rfl, each⟩ := shape
    rw [filter_flatten]
    unfold Form.bare
    split
    · next none =>
      have nils : ∀ us ∈ tss.map (List.filter (!·.isLeaf)), us = [] := by
        intro us among
        obtain ⟨vs, inside, rfl⟩ := mem_map.1 among
        have shape := ih (each vs inside)
        rwa [none] at shape
      exact flatten_eq_nil_iff.2 nils
    · refine ⟨_, rfl, ?_⟩
      intro us among
      obtain ⟨vs, inside, rfl⟩ := mem_map.1 among
      exact ih (each vs inside)

/-- Whether every match has nodes, the first of them picked. -/
def leads (n : Rule → Bool) (f : Form) : Bool :=
  match f.bare with
  | node rs => rs.all n
  | seq (node rs) _ => rs.all n
  | _ => false

theorem nodes_of_leads (first : f.leads n) (shape : f.Matches ts) :
    ∃ t rest r, ts.filter (!·.isLeaf) = t :: rest ∧ t.rule? = some r ∧ n r := by
  have nodes := shape.bare
  unfold leads at first
  split at first
  · next rs bare =>
    rw [bare] at nodes
    obtain ⟨t, same, r, member, rule⟩ := nodes
    exact ⟨t, [], r, same, rule, all_eq_true.1 first r member⟩
  · next rs rest bare =>
    rw [bare] at nodes
    obtain ⟨_, vs, same, ⟨t, rfl, r, member, rule⟩, _⟩ := nodes
    exact ⟨t, vs, r, same, rule, all_eq_true.1 first r member⟩
  · cases first

end

end Form
end TableLineage.Grammar
