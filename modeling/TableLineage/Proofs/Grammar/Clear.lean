import TableLineage.Proofs.Grammar.Marked
import TableLineage.Proofs.Grammar.Steady

/-! No node of a statement starts at the end of the text. A part that opens a node there is bound to
fail, since the end is never read. -/
namespace TableLineage.Grammar

open List
open Tree (leavesAll MarkedAll ClearAll)

/-- What a look says at the end of the text. -/
def Look.atEnd : Look → Bool
  | .ahead _ c => c.may .eof
  | .both a b => a.atEnd && b.atEnd
  | .either a b => a.atEnd || b.atEnd
  | .not a => !a.atEnd
  | .query | .star | .funcCall => false
  | .outside k => k = .eof

variable {source : List Char} {e : Token} {s : State}

theorem Look.holds_end (eof : e.kind = .eof) (l : Look) : l.holds [e] = l.atEnd := by
  induction l with
  | ahead n c =>
    have kind : (peek [e] n).kind = .eof := by
      cases n with
      | zero => exact eof
      | succ n => rfl
    rw [Look.holds, Class.holds_eq_may (by rw [kind]; rfl), kind]
    rfl
  | both a b first second | either a b first second => rw [Look.holds, Look.atEnd, first, second]
  | not a ih => rw [Look.holds, Look.atEnd, ih]
  | query => simp [Look.holds, Look.atEnd, leadsToQuery, eof]
  | star => simp [Look.holds, Look.atEnd, endsInStar]
  | funcCall => simp [Look.holds, Look.atEnd, endsInCall]
  | outside k => simp [Look.holds, Look.atEnd, standsOutside, eof, eq_comm]

/-- Whether a production is entered in front of a token only. -/
def Symbol.inside : Symbol → Bool
  | .script | .statement | .statementBody | .otherStmt | .createStmt | .indirection => true
  | _ => false

/-- Whether a part that succeeds has opened no node at the end of the text; `inside` it starts in
front of a token. -/
def Part.quiet : Part Symbol → Bool → Bool
  | .done, _ | .take, _ | .need .., _ | .fail _, _ | .swallow _, _ => true
  | .seq a b, inside => (a.quiet inside || b.eats .anything) && b.quiet false
  | .branch l a b, inside => a.quiet (inside || !l.atEnd) && b.quiet (inside || l.atEnd)
  | .loop l a, _ => a.quiet !l.atEnd
  | .attempt a b, inside => a.quiet inside && b.quiet inside
  | .call s, inside => inside || !s.inside
  | .node _ a, inside => (inside || a.eats .anything) && a.quiet inside
  | .group a, inside => a.quiet inside
  | .wrap _ a, inside => a.eats .anything && a.quiet inside

theorem production_quiet (s : Symbol) : s.production.quiet s.inside := by
  cases s <;> decide +kernel

/-- The trees built so far, marked, and the tokens left up to the end `e`. -/
structure Ready (source : List Char) (e : Token) (acc : List Tree) (s : State) : Prop where
  frontier : Frontier source acc s
  marked : MarkedAll s.rest acc
  ends : ∃ front, s.rest = front ++ [e] ∧ ∀ t ∈ leavesAll acc ++ front, t.kind ≠ .eof

namespace Ready

variable {acc out : List Tree} {s' : State}

theorem nil (ready : Ready source e acc s) : Ready source e [] s := by
  obtain ⟨front, rest, inner⟩ := ready.ends
  exact ⟨.nil source s, trivial, front, rest, fun t member => inner t (mem_append_right _ member)⟩

theorem some (ready : Ready source e acc s) : s.rest ≠ [] := by
  obtain ⟨front, rest, _⟩ := ready.ends
  simp [rest]

theorem after {p : Part Symbol} (ran : Part.Ran source p acc s out s') (wraps : p.wrapsTokens)
    (ready : Ready source e acc s) : Ready source e out s' := by
  obtain ⟨taken, reads, leaves, keeps⟩ := ran.advances
  obtain ⟨front, rest, inner⟩ := ready.ends
  have some : s'.rest ≠ [] := reads.some (by simp [rest])
  have split : taken ++ s'.rest.dropLast ++ [s'.rest.getLast some] = front ++ [e] := by
    rw [append_assoc, dropLast_concat_getLast some, ← reads.rest, rest]
  obtain ⟨same, last⟩ := append_inj' split rfl
  refine ⟨keeps ready.frontier, ran.marks wraps ready.frontier ready.marked, s'.rest.dropLast, ?_, ?_⟩
  · rw [← last, dropLast_concat_getLast some]
  · rwa [leaves, append_assoc, same]

/-- In front of a token the next one is not the end. -/
theorem current (ready : Ready source e acc s) (inside : 1 < s.rest.length) : s.current.kind ≠ .eof := by
  obtain ⟨front, rest, inner⟩ := ready.ends
  cases front with
  | nil => simp [rest] at inside
  | cons t front => simpa [State.current, rest] using inner t (by simp)

theorem clear (ready : Ready source e acc s) (inside : 1 < s.rest.length) : ClearAll acc := by
  obtain ⟨front, _, inner⟩ := ready.ends
  refine Tree.MarkedAll.clear acc ready.marked (fun t member => inner t (mem_append_left _ member)) ?_
  exact ready.current inside

theorem inside_of_look (ready : Ready source e acc s) (eof : e.kind = .eof) (l : Look) (other : l.holds s.rest ≠ l.atEnd) :
    1 < s.rest.length := by
  obtain ⟨front, rest, _⟩ := ready.ends
  cases front with
  | nil =>
    rw [rest] at other
    exact absurd (Look.holds_end eof l) other
  | cons t front => simp [rest]

end Ready

theorem clear_closeNode {r : Rule} {first : Token} {isEmpty : Bool} {children : List Tree} (starts : first.kind ≠ .eof)
    (clear : ClearAll children) : (closeNode source r first isEmpty s children).Clear := by
  unfold closeNode
  split <;> exact ⟨starts, clear⟩

namespace Part.Ran

variable {p : Part Symbol} {acc out : List Tree} {s' : State}

/-- The end of the text is never read. -/
theorem inside_of_eats (ran : Ran source p acc s out s') (eats : p.eats .anything) (some : s.rest ≠ []) :
    1 < s.rest.length := by
  have less := ran.eats eats (Ahead.holds_anything _)
  obtain ⟨_, reads, _⟩ := ran.advances
  have left := length_pos_iff.2 (reads.some some)
  omega

/-- After a quiet part no node starts at the end of the text if none did before. -/
theorem clear (eof : e.kind = .eof) (ran : Ran source p acc s out s') (wraps : p.wrapsTokens) {inside : Bool}
    (quiet : p.quiet inside) (ready : Ready source e acc s) (starts : inside = true → 1 < s.rest.length)
    (clear : ClearAll acc) : ClearAll out := by
  induction ran generalizing inside with
  | done | stop => exact clear
  | take | need => exact Tree.clearAll_append.2 ⟨clear, trivial, trivial⟩
  | swallow => exact Tree.clearAll_append.2 ⟨clear, Tree.clearAll_leaves _⟩
  | seq one two first second =>
    obtain ⟨left, right⟩ := Bool.and_eq_true_iff.1 wraps
    obtain ⟨early, late⟩ := Bool.and_eq_true_iff.1 quiet
    have ready' := ready.after one left
    refine second right late ready' (fun wrong => by cases wrong) ?_
    obtain quiet | eats := Bool.or_eq_true_iff.1 early
    · exact first left quiet ready starts clear
    · exact ready'.clear (two.inside_of_eats eats ready'.some)
  | @goes l _ _ _ _ _ _ success _ ih =>
    refine ih (Bool.and_eq_true_iff.1 wraps).1 (Bool.and_eq_true_iff.1 quiet).1 ready (fun known => ?_) clear
    obtain known | fails := Bool.or_eq_true_iff.1 known
    · exact starts known
    · exact ready.inside_of_look eof l (by rw [success]; simpa using fails)
  | @turns l _ _ _ _ _ _ failure _ ih =>
    refine ih (Bool.and_eq_true_iff.1 wraps).2 (Bool.and_eq_true_iff.1 quiet).2 ready (fun known => ?_) clear
    obtain known | succeeds := Bool.or_eq_true_iff.1 known
    · exact starts known
    · exact ready.inside_of_look eof l (by simp [succeeds, failure])
  | @last l _ _ _ _ _ success _ ih =>
    exact ih wraps quiet ready (fun fails => ready.inside_of_look eof l (by rw [success]; simpa using fails)) clear
  | @round l _ _ _ _ _ _ _ success one _ first second =>
    have again : (Part.loop l _).quiet false := quiet
    refine second wraps again (ready.after one wraps) (fun wrong => by cases wrong) ?_
    exact first wraps quiet ready (fun fails => ready.inside_of_look eof l (by rw [success]; simpa using fails)) clear
  | tried _ ih => exact ih (Bool.and_eq_true_iff.1 wraps).1 (Bool.and_eq_true_iff.1 quiet).1 ready starts clear
  | instead _ ih => exact ih (Bool.and_eq_true_iff.1 wraps).2 (Bool.and_eq_true_iff.1 quiet).2 ready starts clear
  | @call u _ _ _ _ _ ih =>
    refine ih (production_wrapsTokens u) (production_quiet u) ready (fun known => starts ?_) clear
    simpa [quiet, Part.quiet, known] using quiet
  | node _ inner ih =>
    obtain ⟨opens, quiet⟩ := Bool.and_eq_true_iff.1 quiet
    have first := ready.current <|
      (Bool.or_eq_true_iff.1 opens).elim starts fun eats => inner.inside_of_eats eats ready.some
    have below := ih wraps quiet ready.nil starts trivial
    exact Tree.clearAll_append.2 ⟨clear, clear_closeNode first below, trivial⟩
  | group _ ih => exact Tree.clearAll_append.2 ⟨clear, ih wraps quiet ready.nil starts trivial⟩
  | @wrap _ _ _ _ children _ inner ih =>
    obtain ⟨eats, quiet⟩ := Bool.and_eq_true_iff.1 quiet
    obtain ⟨_, wraps⟩ := Bool.and_eq_true_iff.1 wraps
    have below := ih wraps quiet ready starts clear
    refine ⟨clear_closeNode ?_ below, trivial⟩
    obtain ⟨front, _, tokens⟩ := (ready.after inner wraps).ends
    cases children with
    | nil => exact ready.current (inner.inside_of_eats eats ready.some)
    | cons head =>
      cases head with
      | leaf u => exact tokens u (by simp [leavesAll, Tree.leaves])
      | node => exact below.1.1

end Part.Ran
end TableLineage.Grammar
