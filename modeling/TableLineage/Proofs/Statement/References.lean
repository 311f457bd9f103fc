import Mathlib.Algebra.BigOperators.Group.List.Basic
import Mathlib.Algebra.Order.Group.Multiset
import TableLineage.Proofs.Grammar.Occurrence
import TableLineage.Proofs.Lineage.Mentions
import TableLineage.Proofs.Statement.Ready

/-! The tables of a parse tree and those that a walk meets. Both are taken as multisets, since a walk goes
through some clauses in another order than they were written in. -/
namespace TableLineage

open List

/-! ### Tables of outlines -/

namespace Outline

/-- The names of the tables met on a walk, in any order. -/
def references (os : List Outline) : Multiset String := tableNames os

@[simp] theorem references_nil : references [] = 0 := rfl

@[simp] theorem references_append (os ps : List Outline) : references (os ++ ps) = references os + references ps := by
  simp [references]

theorem tableNames_node {m : Mark} (other : m.kind ≠ .tableRef) (os : List Outline) :
    tableNames [.node m os] = tableNames os := by
  simp [tableNames, visitsAll, visits, other]

@[simp] theorem references_node (m : Mark) (os : List Outline) (other : m.kind ≠ .tableRef) :
    references [.node m os] = references os := by
  rw [references, references, tableNames_node other]

end Outline

/-! ### Tables of trees -/

/-- Whether nodes from the rule name a table that is read or emptied. -/
def Rule.isRelation (r : Rule) : Bool := r = .relationExpr || r = .deleteTarget

variable {t : Tree} {r : Rule}

namespace Tree

/-- The name of the table that a node with these children stands for. -/
def relationName (m : ReadMode) (children : List Tree) : String :=
  ((children.find? (·.hasRule .qualifiedName)).map m.qualifiedName).getD ""

mutual

/-- The names of the tables of a tree. Types are kept as text, so the tables inside them are
left out. -/
def tableNames (m : ReadMode) : Tree → List String
  | .leaf _ => []
  | .node r _ _ _ cs =>
    if r = .typename then []
    else if r.isRelation then relationName m cs :: tableNamesAll m cs
    else tableNamesAll m cs

def tableNamesAll (m : ReadMode) : List Tree → List String
  | [] => []
  | t :: ts => t.tableNames m ++ tableNamesAll m ts

end

variable (m : ReadMode)

def references (t : Tree) : Multiset String := t.tableNames m

def referencesOf (ts : List Tree) : Multiset String := (ts.map (references m)).sum

@[simp] theorem referencesOf_nil : referencesOf m [] = 0 := rfl

@[simp] theorem referencesOf_cons (t : Tree) (ts : List Tree) : referencesOf m (t :: ts) = t.references m + referencesOf m ts := by
  simp [referencesOf]

@[simp] theorem referencesOf_append (ts us : List Tree) : referencesOf m (ts ++ us) = referencesOf m ts + referencesOf m us := by
  simp [referencesOf]

theorem tableNamesAll_eq (ts : List Tree) : (tableNamesAll m ts : Multiset String) = referencesOf m ts := by
  induction ts with
  | nil => rfl
  | cons t ts ih => rw [tableNamesAll, ← Multiset.coe_add, ih, referencesOf_cons, references]

@[simp] theorem references_leaf (tok : Token) : (leaf tok).references m = 0 := by
  rw [references, tableNames]
  rfl

theorem references_typename (rule : t.rule? = some .typename) : t.references m = 0 := by
  cases t with
  | leaf => rfl
  | node r f l x cs =>
    cases rule
    rw [references, tableNames, if_pos rfl]
    rfl

/-- A node that stands for no table itself has those of its children. -/
theorem references_plain (rule : t.rule? = some r) (type : r ≠ .typename) (relation : r.isRelation = false) :
    t.references m = referencesOf m t.children := by
  cases t with
  | leaf => cases rule
  | node _ f l x cs =>
    cases rule
    rw [references, tableNames, if_neg type, if_neg (by simp [relation]), tableNamesAll_eq, children]

theorem references_relation (rule : t.rule? = some r) (relation : r.isRelation) :
    t.references m = {relationName m t.children} + referencesOf m t.children := by
  cases t with
  | leaf => cases rule
  | node _ f l x cs =>
    cases rule
    have type : r ≠ .typename := by
      rintro rfl
      cases relation
    rw [references, tableNames, if_neg type, if_pos relation, ← Multiset.cons_coe, tableNamesAll_eq, Multiset.singleton_add,
      children]

/-- Trees without a table count for nothing. -/
theorem referencesOf_filter {p : Tree → Bool} {ts : List Tree} (others : ∀ t ∈ ts, p t = true ∨ t.references m = 0) :
    referencesOf m (ts.filter p) = referencesOf m ts := by
  induction ts with
  | nil => rfl
  | cons t ts ih =>
    have rest := ih fun u later => others u (mem_cons_of_mem t later)
    by_cases here : p t = true
    · rw [filter_cons_of_pos here, referencesOf_cons, referencesOf_cons, rest]
    · rw [filter_cons_of_neg here, referencesOf_cons, rest, (others t mem_cons_self).resolve_left here, zero_add]

end Tree

/-- The rules whose nodes never hold a table. -/
def Rule.isSilent : Rule → Bool
  | .typename | .qualifiedName | .columnList | .nameList | .aliasClause | .insertTarget | .setOperator | .joinType
  | .intoClause | .qualOp | .anyName | .nullTreatment | .funcName | .frameClause | .tableAttributes | .viewOptions
  | .columnDefinitions | .joinUsing => true
  | _ => false

theorem Rule.silent_forms (silent : r.isSilent) (type : r ≠ .typename) :
    r.isRelation = false ∧ r.forms.all fun f => f.always (fun _ => true) Rule.isSilent := by
  revert silent type
  cases r <;> decide

namespace Tree

variable {m : ReadMode} {s : Rule}

theorem referencesOf_eq_zero {ts : List Tree} (all : ∀ t ∈ ts, t.references m = 0) : referencesOf m ts = 0 := by
  induction ts with
  | nil => rfl
  | cons t ts ih =>
    rw [referencesOf_cons, all t mem_cons_self, ih fun u later => all u (mem_cons_of_mem t later), add_zero]

theorem Shaped.references_silent (shaped : t.Shaped) (rule : t.rule? = some r) (silent : r.isSilent) : t.references m = 0 := by
  induction shaped generalizing r with
  | leaf => exact references_leaf m _
  | @node s f l x cs form listed shape _ ih =>
    cases rule
    by_cases type : s = .typename
    · exact references_typename m (type ▸ rfl)
    · obtain ⟨relation, forms⟩ := Rule.silent_forms silent type
      rw [references_plain m rfl type relation]
      refine referencesOf_eq_zero fun c member => ?_
      obtain ⟨_, _, tok, rfl, _⟩ | ⟨_, quiet, same⟩ :=
        Grammar.Form.forall_of_always (all_eq_true.1 forms form listed) shape c member
      · exact references_leaf m tok
      · exact ih c member same quiet

end Tree
end TableLineage
