import TableLineage.Proofs.Grammar.Clear
import TableLineage.Proofs.Grammar.Confined
import TableLineage.Proofs.Grammar.Sequence
import TableLineage.Proofs.Grammar.View

/-! Two scripts with a semicolon between them are read as the one and then the other. -/
namespace TableLineage.Grammar

open List
open Tree (bareAll SameSlices Meets)

/-- From these tokens to the end the trees are read, whatever was read before. -/
def Continues (statement : Step) (ts : List Token) (kids : List Tree) : Prop :=
  ∀ s, s.rest = ts → ∃ s', Sequence statement s kids s'

/-- What a statement covers, and that its places are settled by the tokens. -/
structure Stands (source : List Char) (n : Tree) (s s₁ : State) : Prop where
  bounded : n.Bounded source
  marked : n.Marked s₁.rest
  covers : s.rest = n.leaves ++ s₁.rest
  some : s.rest ≠ [] → s₁.rest ≠ []

theorem statement_stands {source : List Char} {depth : Nat} {s s₁ : State} {n : Tree}
    (read : Symbol.run source depth .statement [] s = .ok ([n], s₁)) : Stands source n s s₁ := by
  have ran := Symbol.ran_of_run read
  obtain ⟨taken, reads, leaves, keeps⟩ := ran.advances
  have marked := ran.marks rfl (.nil source s) trivial
  have covered : n.leaves = taken := by simpa [Tree.leavesAll] using leaves
  exact ⟨(keeps (.nil source s)).bounded n mem_cons_self, marked.1, covered ▸ reads.rest, reads.some⟩

/-- Any depth that a script of `m` tokens or more gives to its statements is deep enough for `m`. -/
theorem statement_run_eq (source : List Char) {m n n' : Nat} (enough : m ≤ n) (enough' : m ≤ n') {acc : List Tree}
    {s : State} (few : s.rest.length ≤ m) :
    Symbol.run source (statementDepth n) .statement acc s = Symbol.run source (statementDepth n') .statement acc s := by
  refine Symbol.run_eq_of_deep source (m := m) ?_ ?_ few
  all_goals
    have rank : Symbol.rank .statement = 7 := rfl
    unfold statementDepth Symbol.count
    omega

theorem lookSame_map {φ : Token → Token} (lexemes : ∀ t, (φ t).toLexeme = t.toLexeme) (ts : List Token) :
    LookSame .placeless ts (ts.map φ) := by
  refine .of_map_eq (View.see_placeless_of_lexemes ?_)
  rw [map_map]
  exact (map_congr_left fun t _ => lexemes t).symm

section

variable {source source' : List Char} {tokens : List Token} {n n' : Nat}

/-- Statements over tokens that have been moved are read as they were, and moved. -/
theorem Sequence.moved {φ : Token → Token} (lexemes : ∀ t, (φ t).toLexeme = t.toLexeme)
    (slices : SameSlices φ source source' tokens) {s s' : State} {kids : List Tree}
    (sequence : Sequence (Symbol.run source (statementDepth n) .statement) s kids s') (few : s.rest.length ≤ n)
    (longer : n ≤ n') (some : s.rest ≠ []) (within : ∀ t ∈ s.rest, t ∈ tokens) :
    Continues (Symbol.run source' (statementDepth n') .statement) (s.rest.map φ) (Tree.moveAll φ kids) := by
  induction sequence with
  | @stop s ended =>
    intro st rest
    refine ⟨st, .stop ?_⟩
    rw [rest, ← (lookSame_map lexemes s.rest).kind_peek, ended]
  | @semicolon s _ t u ts kids rest mark more ih =>
    intro st moved
    rw [rest] at few moved within
    have later := ih (Nat.le_of_succ_le few) (by simp) fun v member => within v (mem_cons_of_mem t member)
    obtain ⟨last, after⟩ := later ⟨φ u :: ts.map φ, st.read + 1, φ t⟩ rfl
    refine ⟨last, .semicolon moved ?_ after⟩
    rw [lexemes, mark]
  | @statement s s₁ _ t kids starts read ends more ih =>
    intro st moved
    have same : LookSame .placeless s.rest st.rest := moved ▸ lookSame_map lexemes s.rest
    have deeper := (statement_run_eq source few (Nat.le_trans few longer) (Nat.le_refl _)).symm.trans read
    obtain ⟨⟨out, st₁⟩, read', trees, same'⟩ :=
      (Symbol.run_lockstep source source' (statementDepth n') .statement [] [] s st ⟨rfl, same⟩).exists_ok deeper
    rw [Tree.seenAll_placeless, Tree.seenAll_placeless] at trees
    obtain ⟨t', rfl, bare⟩ := Tree.eq_singleton_of_bareAll trees
    have stands := statement_stands read
    have stands' := statement_stands read'
    have split : (t'.leaves ++ st₁.rest) = t.leaves.map φ ++ s₁.rest.map φ := by
      rw [← stands'.covers, moved, stands.covers, map_append]
    obtain ⟨leaves, rest⟩ := append_inj split (by rw [length_map]; exact Tree.length_leaves_of_bare bare)
    have left : s₁.rest ≠ [] := stands.some some
    have meets : Meets φ s₁.rest st₁.rest t.Clear := by
      obtain ⟨u, us, first⟩ := exists_cons_of_ne_nil left
      exact .inl (by rw [rest, first]; rfl)
    have whole : t' = t.move φ := by
      refine Tree.eq_move slices t t' stands.bounded stands'.bounded stands.marked stands'.marked bare leaves ?_ meets
      intro u member
      exact within u (stands.covers ▸ mem_append_left _ member)
    have fewer : s₁.rest.length ≤ n := by
      rw [stands.covers, length_append] at few
      omega
    obtain ⟨last, after⟩ := ih fewer left (fun u member => within u (stands.covers ▸ mem_append_right _ member)) st₁ rest
    refine ⟨last, ?_⟩
    rw [Tree.moveAll, ← whole]
    refine .statement ?_ read' ?_ after
    · rw [← Look.holds_eq same, starts]
    · rw [← Look.holds_eq same', ends]

section

variable {e j : Token} {more left : List Token} (eof : e.kind = .eof) (mark : j.kind = .semicolon)

include eof mark

/-- A statement is read in front of a semicolon as it was in front of the end. -/
theorem statement_before (slices : SameSlices id source source' tokens) {s s₁ st : State} {t : Tree}
    (rest : s.rest = left ++ [e]) (joined : st.rest = left ++ j :: more) (inside : ∀ u ∈ left, u.kind ≠ .eof)
    (level : net left = 0) (within : ∀ u ∈ left, u ∈ tokens) (starts : Look.statementEnd.holds s.rest = false)
    {depth : Nat} (read : Symbol.run source depth .statement [] s = .ok ([t], s₁)) :
    ∃ left' st₁, left = t.leaves ++ left' ∧ s₁.rest = left' ++ [e] ∧ st₁.rest = left' ++ j :: more ∧ net left' = 0 ∧
      Symbol.run source' depth .statement [] st = .ok ([t], st₁) := by
  have parallel : Parallel e j more 0 0 [[Symbol.gate .statement]] left ([], s) ([], st) :=
    ⟨rfl, rest, joined, inside, ⟨_, mem_singleton_self _, by simp [Symbol.gate], trivial⟩, by simp [level]⟩
  obtain ⟨⟨out, st₁⟩, read', left', parallel'⟩ :=
    (Symbol.run_confined source source' eof mark depth .statement 0 left [] [] s st parallel (Int.le_refl 0)
      fun _ => level).exists_ok read
  obtain ⟨t', rfl, bare⟩ := Tree.eq_singleton_of_bareAll parallel'.trees
  have alone : s₁.rest = left' ++ [e] := parallel'.alone
  have after : st₁.rest = left' ++ j :: more := parallel'.joined
  have stands := statement_stands read
  have stands' := statement_stands read'
  have front : left = t.leaves ++ left' := by
    have split := stands.covers
    rw [rest, alone, ← append_assoc] at split
    exact append_cancel_right split
  have front' : left = t'.leaves ++ left' := by
    have split := stands'.covers
    rw [joined, after, ← append_assoc] at split
    exact append_cancel_right split
  have leaves : t'.leaves = t.leaves := append_cancel_right (front'.symm.trans front)
  have clear : t.Clear := by
    have ready : Ready source e [] s := ⟨.nil source s, trivial, left, rest, inside⟩
    have quiet : (Part.call .statement).quiet true := rfl
    refine ((Symbol.ran_of_run read).clear eof rfl quiet ready (fun _ => ?_) trivial).1
    refine ready.inside_of_look eof Look.statementEnd ?_
    rw [starts]
    decide
  have meets : Meets id s₁.rest st₁.rest t.Clear := by
    rw [alone, after]
    cases left' with
    | nil => exact .inr ⟨eof, clear⟩
    | cons u us => exact .inl rfl
  have whole : t' = t.move id := by
    refine Tree.eq_move slices t t' stands.bounded stands'.bounded stands.marked stands'.marked bare ?_ ?_ meets
    · rw [leaves, map_id]
    · intro u member
      exact within u (front ▸ mem_append_left _ member)
  rw [Tree.move_id] at whole
  subst whole
  exact ⟨left', st₁, front, alone, after, by simpa using parallel'.balance, read'⟩

/-- The statements in front of a semicolon are read as they were in front of the end, and then
what comes after them. -/
theorem Sequence.before (slices : SameSlices id source source' tokens) {s s' : State} {kids others : List Tree}
    (sequence : Sequence (Symbol.run source (statementDepth n) .statement) s kids s') (few : s.rest.length ≤ n)
    (longer : n ≤ n') (rest : s.rest = left ++ [e]) (inside : ∀ u ∈ left, u.kind ≠ .eof) (level : net left = 0)
    (within : ∀ u ∈ left, u ∈ tokens)
    (tail : Continues (Symbol.run source' (statementDepth n') .statement) (j :: more) others) :
    Continues (Symbol.run source' (statementDepth n') .statement) (left ++ j :: more) (kids ++ others) := by
  induction sequence generalizing left with
  | @stop s ended =>
    cases left with
    | nil => exact tail
    | cons u left =>
      rw [rest] at ended
      exact absurd ended (inside u mem_cons_self)
  | @semicolon s _ t u ts kids split mark' more' ih =>
    cases left with
    | nil => simp [split] at rest
    | cons v left =>
      rw [split] at rest few
      obtain ⟨rfl, below⟩ := List.cons.inj rest
      have level : net left = 0 := by simpa [mark', Kind.weight] using level
      have later := ih (Nat.le_of_succ_le few) below (fun w member => inside w (mem_cons_of_mem t member)) level
        fun w member => within w (mem_cons_of_mem t member)
      intro st joined
      obtain ⟨w, ws, next⟩ := exists_cons_of_ne_nil (show left ++ j :: more ≠ [] by simp)
      obtain ⟨last, after⟩ := later ⟨w :: ws, st.read + 1, t⟩ next.symm
      refine ⟨last, .semicolon ?_ mark' after⟩
      rw [joined, cons_append, next]
  | @statement s s₁ _ t kids starts read ends more' ih =>
    intro st joined
    have deeper := (statement_run_eq source few (Nat.le_trans few longer) (Nat.le_refl _)).symm.trans read
    obtain ⟨left', st₁, rfl, alone, after, level', read'⟩ :=
      statement_before eof mark slices rest joined inside level within starts deeper
    have fewer : s₁.rest.length ≤ n := by
      rw [rest] at few
      rw [alone]
      simp only [length_append] at few ⊢
      omega
    obtain ⟨last, sequence⟩ := ih fewer alone (fun u member => inside u (mem_append_right _ member)) level'
      (fun u member => within u (mem_append_right _ member)) st₁ after
    have sees (ts : List Token) : Look.statementEnd.holds (ts ++ [e]) = Look.statementEnd.holds (ts ++ j :: more) :=
      Look.holds_eq_of_steady eof mark (k := .anything) (show Look.statementEnd.steady .anything false from rfl)
        (Ahead.holds_anything _) (fun wrong => by cases wrong)
    refine ⟨last, .statement ?_ read' ?_ sequence⟩
    · rw [joined, ← sees, ← rest, starts]
    · rw [after, ← sees, ← alone, ends]

end

/-- Two scripts with a semicolon between them: the trees of the one, the semicolon, and the trees of
the other where it has been moved to. -/
theorem parseTokens_joined {source source' whole : List Char} {φ : Token → Token} {left right : List Token}
    {e e' j : Token} {t t' : Tree} (eof : e.kind = .eof) (mark : j.kind = .semicolon)
    (lexemes : ∀ u, (φ u).toLexeme = u.toLexeme) (inside : ∀ u ∈ left, u.kind ≠ .eof) (level : net left = 0)
    (slices : SameSlices id source whole left) (slices' : SameSlices φ source' whole (right ++ [e']))
    (parsed : parseTokens source (left ++ [e]) = .ok t) (parsed' : parseTokens source' (right ++ [e']) = .ok t') :
    ∃ u, parseTokens whole (left ++ j :: (right ++ [e']).map φ) = .ok u ∧
      u.children = t.children ++ .leaf j :: Tree.moveAll φ t'.children := by
  obtain ⟨_, first⟩ := parseTokens_sequence parsed
  obtain ⟨_, second⟩ := parseTokens_sequence parsed'
  obtain ⟨size, count⟩ : ∃ n, (left ++ j :: (right ++ [e']).map φ).length = n := ⟨_, rfl⟩
  have lengths : left.length + (right.length + 1) + 1 = size := by
    rw [← count]
    simp
    omega
  have others : Continues (Symbol.run whole (statementDepth size) .statement) (j :: (right ++ [e']).map φ)
      (.leaf j :: Tree.moveAll φ t'.children) := by
    intro st rest
    obtain ⟨u, us, next⟩ := exists_cons_of_ne_nil (show (right ++ [e']).map φ ≠ [] by simp)
    have fewer : (right ++ [e']).length ≤ size := by
      rw [length_append, length_singleton]
      omega
    have moved := second.moved lexemes slices' (Nat.le_refl _) fewer (by simp) (fun _ member => member)
    obtain ⟨last, after⟩ := moved ⟨u :: us, st.read + 1, j⟩ next.symm
    exact ⟨last, .semicolon (by rw [rest, next]) mark after⟩
  have fewer : (left ++ [e]).length ≤ size := by
    rw [length_append, length_singleton]
    omega
  have all := first.before eof mark slices (Nat.le_refl _) fewer rfl inside level (fun _ member => member) others
  rw [← count] at all
  obtain ⟨last, sequence⟩ := all ⟨_, 0, .none⟩ rfl
  exact parseTokens_of_sequence sequence

end
end TableLineage.Grammar
