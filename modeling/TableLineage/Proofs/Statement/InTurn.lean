import TableLineage.Proofs.Statement.Muted
import TableLineage.Proofs.Statement.Refused

/-! Statements in a row, one after the other. A statement that cannot be read is no matter to those
that are passed over, but those that are read after it lose their expressions. -/
namespace TableLineage

open List

/-- What becomes of a statement, and what becomes of it without its expressions. -/
inductive Item.Muted : Item → Item → Prop
  | statement {s s' : Statement} (muted : s.Muted s') : Muted (.statement s) (.statement s')
  | skipped {d : Diagnostic} : Muted (.skipped d) (.skipped d)

namespace Tree

/-- The statement that was read. -/
def statement? : Outcome Item → Option Statement
  | .ok (.statement s) => some s
  | _ => none

/-- The word on a statement that was passed over. -/
def diagnostic? : Outcome Item → Option Diagnostic
  | .ok (.skipped d) => some d
  | _ => none

variable {n blind : Bool} {t : Tree} {ts : List Tree}

/-- Whether the statement can be read on its own. -/
def isReadable (n : Bool) (t : Tree) : Bool := (t.item ⟨n, false⟩).isOk

theorem follows_item : Follows Item.Muted (t.item ⟨n, false⟩) (t.item ⟨n, true⟩) := by
  refine .after fun body => .branch (.ok .skipped) ?_
  exact (body.mutes n .statement rfl).bind fun _ _ muted => .ok (.statement muted)

theorem diagnostic?_item (blind : Bool) : diagnostic? (t.item ⟨n, blind⟩) = diagnostic? (t.item ⟨n, false⟩) := by
  unfold item
  cases t.statementBody with
  | error => rfl
  | ok body =>
    simp only [bind, Except.bind]
    split
    · rfl
    · cases body.read ⟨n, blind⟩ .statement <;> cases body.read ⟨n, false⟩ .statement <;> rfl

/-- Once a statement could not be read on its own, those after it are read without expressions. -/
theorem item_of_inTurn {i : Nat} {x : Outcome Item} (result : (itemsInTurn n blind ts)[i]? = some x) :
    ∃ t ∈ ts[i]?, x = t.item ⟨n, blind || !(ts.take i).all (isReadable n)⟩ := by
  induction ts generalizing blind i with
  | nil => cases result
  | cons t ts ih =>
    -- What the first statement does to the flag is what it does on its own, unless the flag is up.
    rw [itemsInTurn] at result
    cases i with
    | zero =>
      have first : x = t.item ⟨n, blind⟩ := by
        split at result <;> simp_all
      exact ⟨t, rfl, by simpa using first⟩
    | succ i =>
      rw [take_succ_cons, all_cons]
      split at result
      · next read =>
        obtain ⟨u, place, same⟩ := ih result
        refine ⟨u, place, ?_⟩
        cases blind with
        | true => exact same
        | false => simpa [isReadable, read, Except.isOk, Except.toBool] using same
      · simp at result
      · next read =>
        obtain ⟨u, place, same⟩ := ih result
        refine ⟨u, place, ?_⟩
        cases blind with
        | true => exact same
        | false => simpa [isReadable, read, Except.isOk, Except.toBool] using same

/-- Unless a missing child breaks the row off, every statement has its turn, and the words on those
that are passed over are those that each has on its own. -/
theorem diagnostics_inTurn (whole : ∀ x ∈ itemsInTurn n blind ts, x ≠ .error .noChild) :
    (itemsInTurn n blind ts).map diagnostic? = ts.map fun t => diagnostic? (t.item ⟨n, false⟩) := by
  induction ts generalizing blind with
  | nil => rfl
  | cons t ts ih =>
    have word := t.diagnostic?_item (n := n) blind
    rw [itemsInTurn] at whole ⊢
    split
    · next read =>
      rw [read] at word
      simp only [read, forall_mem_cons] at whole
      rw [map_cons, map_cons, ih whole.2, word]
    · next read =>
      simp only [read] at whole
      exact absurd rfl (whole _ (mem_singleton_self _))
    · next e other read =>
      rw [read] at word
      simp only [read, forall_mem_cons] at whole
      rw [map_cons, map_cons, ih whole.2, word]

end Tree

/-- What one statement of a row comes to is what it comes to on its own, as long as all before it
can be read on their own. After one that cannot, it is read without expressions: what could be read
on its own is still read, as the same statement with a hole for each expression, and what is passed
over is still passed over. The words on those passed over are those that each has on its own. -/
theorem turns_lose_expressions_after_failure (n : Bool) (ts : List Tree) :
    (∀ i, ∀ x ∈ (Tree.itemsInTurn n false ts)[i]?, ∃ t ∈ ts[i]?,
      ((∀ u ∈ ts.take i, u.isReadable n) → x = t.item ⟨n, false⟩) ∧
      ((∃ u ∈ ts.take i, u.isReadable n = false) →
        x = t.item ⟨n, true⟩ ∧ Follows Item.Muted (t.item ⟨n, false⟩) x)) ∧
    ((∀ x ∈ Tree.itemsInTurn n false ts, x ≠ .error .noChild) →
      (Tree.itemsInTurn n false ts).map Tree.diagnostic? = ts.map fun t => Tree.diagnostic? (t.item ⟨n, false⟩)) := by
  refine ⟨?_, Tree.diagnostics_inTurn⟩
  intro i x result
  obtain ⟨t, place, same⟩ := Tree.item_of_inTurn result
  rw [Bool.false_or] at same
  refine ⟨t, place, ?_, ?_⟩
  · intro readable
    rwa [List.all_eq_true.2 readable] at same
  · rintro ⟨u, member, unread⟩
    have some : (ts.take i).all (Tree.isReadable n) = false := List.all_eq_false.2 ⟨u, member, by simp [unread]⟩
    rw [some] at same
    exact ⟨same, same ▸ Tree.follows_item⟩

/-- After a statement with a bad literal, the next is read with a target that has no expression,
which it has on its own. -/
theorem failure_blanks_next_statement :
    ∃ t ∈ editedTree? "SELECT 1; SELECT b FROM u" "Constant" (.setToken 0 .ident "x"),
      ∃ u ∈ (t.childrenOf .stmt)[1]?, ∃ x ∈ (Tree.itemsInTurn false false (t.childrenOf .stmt))[1]?,
        (∃ s ∈ Tree.statement? x, s.targets.any Phrase.isBlank) ∧
        ∃ s ∈ Tree.statement? (u.item ⟨false, false⟩), s.targets.any Phrase.isBlank = false := by
  decide +kernel

end TableLineage
