import Mathlib.Data.Prod.Lex
import Mathlib.Data.String.Basic
import Mathlib.Order.OrderDual
import TableLineage.Store.Tables

/-! The orders in which runs and edges are listed, as orders of ranks. -/
namespace TableLineage.Store.Tables

/-- A choice between two comparisons is a comparison of pairs. -/
theorem ite_lt_iff {α β : Type} [LinearOrder α] [LinearOrder β] (a a' : α) (b b' : β) {later : Bool}
    (second : later ↔ b ≤ b') :
    (if a ≠ a' then decide (a < a') else later) = true ↔ toLex (a, b) ≤ toLex (a', b') := by
  rw [Prod.Lex.toLex_le_toLex]
  by_cases same : a = a'
  · simp [same, second]
  · simp [same]

theorem not_decide_lt_iff {α : Type} [LinearOrder α] (a b : α) : (!decide (b < a)) = true ↔ a ≤ b := by
  rw [Bool.not_eq_true', decide_eq_false_iff_not, not_lt]

def rank (r : Run) : ℤᵒᵈ ×ₗ String := toLex (OrderDual.toDual r.createdAt.nanos, r.id)

theorem standsBefore_iff (a b : Run) : standsBefore a b ↔ rank a ≤ rank b := by
  rw [standsBefore, ← ite_not]
  refine ite_lt_iff (OrderDual.toDual a.createdAt.nanos) (OrderDual.toDual b.createdAt.nanos) _ _ ?_
  exact not_decide_lt_iff ..

namespace FoundEdge

def rank (e : FoundEdge) : ℤᵒᵈ ×ₗ ℕ ×ₗ String ×ₗ String :=
  toLex (OrderDual.toDual e.createdAt.nanos, toLex (e.number, toLex (e.edge.sink, e.edge.source)))

theorem standsBefore_iff (a b : FoundEdge) : a.standsBefore b ↔ a.rank ≤ b.rank := by
  refine ite_lt_iff (OrderDual.toDual a.createdAt.nanos) (OrderDual.toDual b.createdAt.nanos) _ _ ?_
  refine ite_lt_iff _ _ _ _ ?_
  refine ite_lt_iff _ _ _ _ ?_
  exact not_decide_lt_iff ..

/-- Within a run, edges of one rank are the same edge. -/
theorem eq_of_rank {a b : FoundEdge} (same : a.rank = b.rank) (ofRun : a.edge.runId = b.edge.runId) : a = b := by
  obtain ⟨⟨nanos⟩, number, runId, sink, source⟩ := a
  obtain ⟨⟨nanos'⟩, number', runId', sink', source'⟩ := b
  simp only [rank, EmbeddingLike.apply_eq_iff_eq, Prod.mk.injEq] at same ofRun
  obtain ⟨rfl, rfl, rfl, rfl⟩ := same
  subst ofRun
  rfl

end FoundEdge

theorem pairwise_mergeSort {α κ : Type} [LinearOrder κ] {before : α → α → Bool} {rank : α → κ}
    (ranked : ∀ a b, before a b ↔ rank a ≤ rank b) (l : List α) :
    (l.mergeSort before).Pairwise fun a b => rank a ≤ rank b := by
  have sorted : (l.mergeSort before).Pairwise fun a b => before a b = true := by
    apply List.pairwise_mergeSort
    · intro a b c first second
      exact (ranked a c).2 (le_trans ((ranked a b).1 first) ((ranked b c).1 second))
    · intro a b
      rw [Bool.or_eq_true, ranked, ranked]
      exact le_total ..
  exact sorted.imp fun stands => (ranked _ _).1 stands

/-- Sorted lists of the same things are the same, if different things have different ranks. -/
theorem mergeSort_eq {α κ : Type} [LinearOrder κ] {before : α → α → Bool} {rank : α → κ}
    (ranked : ∀ a b, before a b ↔ rank a ≤ rank b) {l sorted : List α}
    (different : ∀ a ∈ l, ∀ b ∈ l, rank a = rank b → a = b) (inOrder : sorted.Pairwise fun a b => rank a ≤ rank b)
    (same : sorted.Perm l) : l.mergeSort before = sorted := by
  have sorting := l.mergeSort_perm before
  refine List.Perm.eq_of_pairwise ?_ (pairwise_mergeSort ranked l) inOrder (sorting.trans same.symm)
  intro a b there here first second
  exact different a (sorting.mem_iff.1 there) b (same.mem_iff.1 here) (le_antisymm first second)

end TableLineage.Store.Tables
