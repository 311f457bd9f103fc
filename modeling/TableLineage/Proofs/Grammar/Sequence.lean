import TableLineage.Proofs.Grammar.Frontier

/-! A script as one sequence of semicolons and statements up to the end of the text. The grammar
reads it by loops inside a loop; the sequence is what they come to. -/
namespace TableLineage.Grammar

open List
open Tree (leavesAll)

/-- What `statement` and the semicolons between the statements read from a state to the end. -/
inductive Sequence (statement : Step) : State → List Tree → State → Prop
  | stop {s : State} (ended : (peek s.rest 0).kind = .eof) : Sequence statement s [] s
  | semicolon {s s' : State} {t u : Token} {ts : List Token} {kids : List Tree} (rest : s.rest = t :: u :: ts)
      (mark : t.kind = .semicolon) (more : Sequence statement ⟨u :: ts, s.read + 1, t⟩ kids s') :
      Sequence statement s (.leaf t :: kids) s'
  | statement {s s₁ s' : State} {n : Tree} {kids : List Tree}
      (starts : Look.statementEnd.holds s.rest = false) (read : statement [] s = .ok ([n], s₁))
      (ends : Look.statementEnd.holds s₁.rest) (more : Sequence statement s₁ kids s') :
      Sequence statement s (n :: kids) s'

variable {source : List Char} {acc kids out : List Tree} {s s' : State} {statement : Step} {tokens : List Token}
  {n : Nat}

namespace Step

/-- A step that adds one tree, whatever was built before. -/
def AddsOne (step : Step) : Prop :=
  ∀ acc s, (∃ n s₁, step [] s = .ok ([n], s₁) ∧ step acc s = .ok (acc ++ [n], s₁)) ∨
    ((∃ e, step [] s = .error e) ∧ ∃ e, step acc s = .error e)

theorem addsOne_statement (source : List Char) (depth : Nat) : (Symbol.run source depth .statement).AddsOne := by
  intro acc s
  cases depth with
  | zero => exact .inr ⟨⟨_, rfl⟩, ⟨_, rfl⟩⟩
  | succ depth =>
    simp only [Symbol.run, Symbol.production, Part.run]
    cases Symbol.run source depth .statementBody [] s with
    | error e => exact .inr ⟨⟨e, rfl⟩, ⟨e, rfl⟩⟩
    | ok out => exact .inl ⟨_, _, rfl, rfl⟩

/-- Semicolons that a loop has read are part of the sequence that goes on after them. -/
theorem sequence_of_semicolons (statement : Step) (ran : Step.loop (.is .semicolon) Step.take n acc s = .ok (out, s')) :
    ∃ marks, out = acc ++ marks ∧
      ∀ kids s'', Sequence statement s' kids s'' → Sequence statement s (marks ++ kids) s'' := by
  induction n generalizing acc s with
  | zero =>
    cases ran
    exact ⟨[], by simp, fun _ _ rest => rest⟩
  | succ n ih =>
    rw [Step.loop] at ran
    split at ran
    · next mark =>
      obtain ⟨middle, s₁, one, more⟩ := andThen_ok ran
      unfold Step.take at one
      split at one
      · next t u ts rest =>
        split at one
        · cases one
        · cases one
          obtain ⟨marks, built, sequence⟩ := ih more
          have kind : t.kind = .semicolon := by simpa [rest, peek] using is_iff.1 mark
          refine ⟨.leaf t :: marks, by simp [built], fun kids s'' after => ?_⟩
          exact .semicolon rest kind (sequence kids s'' after)
      · cases one
    · cases ran
      exact ⟨[], by simp, fun _ _ rest => rest⟩

end Step

section

variable {depth : Nat}

/-- The induction is on the number of rounds; a round starts with no semicolon in front of it. -/
theorem sequence_of_rounds (enough : s.rest.length ≤ n) (clear : (Look.is .semicolon).holds s.rest = false)
    (ran : Step.loop (.not (.is .eof)) (round.run source (Symbol.run source depth)) n acc s = .ok (out, s')) :
    ∃ kids, out = acc ++ kids ∧ Sequence (Symbol.run source depth .statement) s kids s' := by
  induction n generalizing acc s with
  | zero =>
    cases ran
    refine ⟨[], by simp, .stop ?_⟩
    rw [length_eq_zero_iff.1 (Nat.le_zero.1 enough)]
    rfl
  | succ n ih =>
    rw [Step.loop] at ran
    split at ran
    · next goes =>
      obtain ⟨middle, s₃, one, more⟩ := Step.andThen_ok ran
      have less := round_shrinks goes (Part.ran_of_run one)
      obtain ⟨front, s₁, first, one⟩ := Step.andThen_ok one
      obtain ⟨_, s₂, ended, semicolons⟩ := Step.andThen_ok one
      simp only [Part.run] at ended
      split at ended
      · next ends =>
        cases ended
        obtain ⟨t, s₁', alone, same⟩ | ⟨-, e, failed⟩ := Step.addsOne_statement source depth acc s
        · cases same.symm.trans first
          obtain ⟨marks, built, sequence⟩ := Step.sequence_of_semicolons (Symbol.run source depth .statement) semicolons
          have stopped := Step.loop_ends rfl (fun _ _ _ _ _ => Step.take_shrinks) (Nat.le_refl _) semicolons
          obtain ⟨kids, built', rest⟩ := ih (by omega) stopped more
          refine ⟨t :: (marks ++ kids), by simp [built', built], .statement ?_ alone ends (sequence kids s' rest)⟩
          refine Bool.eq_false_iff.2 fun ended => ?_
          obtain mark | eof := statementEnd_iff.1 ended
          · rw [is_iff.2 mark] at clear
            cases clear
          · simp [Look.holds, is_iff.2 eof] at goes
        · cases failed.symm.trans first
      · cases ended
    · next stops =>
      cases ran
      refine ⟨[], by simp, .stop ?_⟩
      simpa [Look.holds, is_iff] using stops

/-- What a script holds is a sequence up to the end. -/
theorem sequence_of_script (ran : (Symbol.production .script).run source (Symbol.run source depth) [] s = .ok (out, s')) :
    ∃ kids, Sequence (Symbol.run source depth .statement) s kids s' ∧
      out = [closeNode source .root s.current (s'.read = s.read) s' kids] := by
  simp only [Symbol.production, Part.run] at ran
  split at ran
  · next children _ inner =>
    cases ran
    obtain ⟨front, s₁, semicolons, statements⟩ := Step.andThen_ok inner
    obtain ⟨marks, built, sequence⟩ := Step.sequence_of_semicolons (Symbol.run source depth .statement) semicolons
    have stopped := Step.loop_ends rfl (fun _ _ _ _ _ => Step.take_shrinks) (Nat.le_refl _) semicolons
    obtain ⟨kids, built', rest⟩ := sequence_of_rounds (Nat.le_refl _) stopped statements
    refine ⟨marks ++ kids, sequence kids _ rest, ?_⟩
    simp [built', built]
  · cases ran

end

/-- A loop reads the semicolons that a sequence starts with, and the rest of it comes after. -/
def Skips (statement : Step) (n : Nat) (acc : List Tree) (s : State) (kids : List Tree) (s' : State) : Prop :=
  ∃ marks rest s₁, kids = marks ++ rest ∧ Step.loop (.is .semicolon) Step.take n acc s = .ok (acc ++ marks, s₁) ∧
    Sequence statement s₁ rest s' ∧ (Look.is .semicolon).holds s₁.rest = false ∧ s₁.rest.length ≤ s.rest.length

theorem Sequence.skips_none (sequence : Sequence statement s kids s')
    (clear : (Look.is .semicolon).holds s.rest = false) (n : Nat) (acc : List Tree) :
    Skips statement n acc s kids s' := by
  refine ⟨[], kids, s, rfl, ?_, sequence, clear, Nat.le_refl _⟩
  cases n with
  | zero => simp [Step.loop]
  | succ n => simp [Step.loop, clear]

theorem Sequence.skips (sequence : Sequence statement s kids s') (enough : s.rest.length ≤ n) (acc : List Tree) :
    Skips statement n acc s kids s' := by
  induction sequence generalizing n acc with
  | stop ended =>
    refine (Sequence.stop ended).skips_none (Bool.eq_false_iff.2 fun mark => ?_) n acc
    rw [is_iff.1 mark] at ended
    cases ended
  | statement starts read ends more =>
    refine (Sequence.statement starts read ends more).skips_none (Bool.eq_false_iff.2 fun mark => ?_) n acc
    rw [statementEnd_iff.2 (.inl (is_iff.1 mark))] at starts
    cases starts
  | @semicolon s _ t u ts kids rest mark more ih =>
    rw [rest] at enough
    cases n with
    | zero => cases enough
    | succ n =>
      obtain ⟨marks, others, s₁, same, ran, after, clear, fewer⟩ :=
        ih (Nat.le_of_succ_le_succ enough) (acc ++ [.leaf t])
      refine ⟨.leaf t :: marks, others, s₁, by rw [same]; rfl, ?_, after, clear, ?_⟩
      · have goes : (Look.is .semicolon).holds s.rest := is_iff.2 (by simp [rest, peek, mark])
        have read : Step.take acc s = .ok (acc ++ [.leaf t], ⟨u :: ts, s.read + 1, t⟩) := by
          simp [Step.take, rest, mark]
        simp [Step.loop, goes, Step.andThen, read, ran]
      · rw [rest]
        exact Nat.le_succ_of_le fewer

/-- A statement of a sequence reads at least one token. -/
theorem Sequence.shorter (advances : statement.Advances source) {s₁ : State} {n : Tree}
    (starts : Look.statementEnd.holds s.rest = false) (read : statement [] s = .ok ([n], s₁))
    (ends : Look.statementEnd.holds s₁.rest) : n.leaves ≠ [] ∧ s₁.rest.length < s.rest.length := by
  obtain ⟨taken, reads, leaves, _⟩ := advances [] s _ _ read
  have covered : n.leaves = taken := by simpa [leavesAll] using leaves
  have some : taken ≠ [] := by
    rintro rfl
    rw [reads.rest, nil_append, ends] at starts
    cases starts
  refine ⟨covered ▸ some, ?_⟩
  have more := length_pos_iff.2 some
  rw [reads.rest, length_append]
  omega

section

variable {depth : Nat}

/-- A sequence is read by rounds; the induction is on their number. -/
theorem rounds_of_sequence (enough : s.rest.length ≤ n) (clear : (Look.is .semicolon).holds s.rest = false)
    (sequence : Sequence (Symbol.run source depth .statement) s kids s') :
    Step.loop (.not (.is .eof)) (round.run source (Symbol.run source depth)) n acc s = .ok (acc ++ kids, s') := by
  induction n generalizing acc kids s with
  | zero =>
    have none : s.rest = [] := length_eq_zero_iff.1 (Nat.le_zero.1 enough)
    cases sequence with
    | stop => simp [Step.loop]
    | semicolon rest => simp [none] at rest
    | statement starts => simp [none, Look.statementEnd, Look.isAny, Look.holds, Class.holds, peek, endLexeme] at starts
  | succ n ih =>
    cases sequence with
    | stop ended => simp [Step.loop, Look.holds, is_iff.2 ended]
    | semicolon rest mark => simp [Look.is, Look.holds, Class.holds, rest, peek, mark] at clear
    | @statement _ s₁ _ t rest starts read ends more =>
      obtain ⟨marks, others, s₂, rfl, semicolons, after, clear, fewer⟩ := more.skips (Nat.le_refl _) (acc ++ [t])
      have goes : (Look.not (.is .eof)).holds s.rest = true := by
        rw [Look.holds, Bool.not_eq_true']
        refine Bool.eq_false_iff.2 fun eof => ?_
        rw [statementEnd_iff.2 (.inr (is_iff.1 eof))] at starts
        cases starts
      have one : Symbol.run source depth .statement acc s = .ok (acc ++ [t], s₁) := by
        obtain ⟨t', s₁', alone, same⟩ | ⟨⟨e, failed⟩, -⟩ := Step.addsOne_statement source depth acc s
        · cases alone.symm.trans read
          exact same
        · cases failed.symm.trans read
      have less := (Sequence.shorter (Symbol.run_advances source depth .statement) starts read ends).2
      have turn : round.run source (Symbol.run source depth) acc s = .ok (acc ++ [t] ++ marks, s₂) := by
        simp only [round, Part.all, Part.run, Step.andThen, one, ends, if_true, semicolons]
      rw [Step.loop, if_pos goes]
      simp only [Step.andThen, turn]
      rw [ih (by omega) clear after]
      simp

/-- A sequence up to the end is what a script holds. -/
theorem script_of_sequence (sequence : Sequence (Symbol.run source depth .statement) s kids s') :
    (Symbol.production .script).run source (Symbol.run source depth) [] s =
      .ok ([closeNode source .root s.current (s'.read = s.read) s' kids], s') := by
  obtain ⟨marks, rest, s₁, rfl, semicolons, after, clear, _⟩ := sequence.skips (Nat.le_refl _) []
  have inner : (Part.all [.loop (.is .semicolon) .take, .loop (.not (.is .eof)) round]).run source
      (Symbol.run source depth) [] s = .ok (marks ++ rest, s') := by
    simp only [Part.all, Part.run, Step.andThen, semicolons]
    exact rounds_of_sequence (Nat.le_refl _) clear after
  exact (Part.run_node source _ .root _ [] s).trans (congrArg (Except.map _) inner)

end

theorem Sequence.leaves_ne_nil (advances : statement.Advances source) (sequence : Sequence statement s kids s') :
    ∀ n ∈ kids, n.leaves ≠ [] := by
  induction sequence with
  | stop => simp
  | semicolon _ _ _ ih => simpa [Tree.leaves] using ih
  | statement starts read ends _ ih => exact forall_mem_cons.2 ⟨(shorter advances starts read ends).1, ih⟩

/-- The depth to which the statements of a script of `n` tokens may go. -/
def statementDepth (n : Nat) : Nat := Symbol.count * n + (Symbol.count - 1)

theorem depth_eq (n : Nat) : Symbol.count * (n + 1) = statementDepth n + 1 := by
  unfold statementDepth Symbol.count
  omega

theorem parseTokens_sequence {t : Tree} (parsed : parseTokens source tokens = .ok t) :
    ∃ s', Sequence (Symbol.run source (statementDepth tokens.length) .statement) ⟨tokens, 0, .none⟩ t.children s' := by
  unfold parseTokens at parsed
  dsimp only at parsed
  rw [depth_eq, Symbol.run] at parsed
  split at parsed
  · next s ran =>
    cases parsed
    obtain ⟨kids, sequence, built⟩ := sequence_of_script ran
    cases built
    refine ⟨s, ?_⟩
    unfold closeNode
    split <;> exact sequence
  · cases parsed
  · cases parsed

/-- Every statement of a script, and every semicolon between them, covers a token. -/
theorem parseTokens_covers {t : Tree} (parsed : parseTokens source tokens = .ok t) :
    ∀ n ∈ t.children, n.leaves ≠ [] := by
  obtain ⟨s', sequence⟩ := parseTokens_sequence parsed
  exact sequence.leaves_ne_nil (Symbol.run_advances source _ .statement)

/-- The children of a script are any sequence up to the end. -/
theorem parseTokens_of_sequence
    (sequence : Sequence (Symbol.run source (statementDepth tokens.length) .statement) ⟨tokens, 0, .none⟩ kids s') :
    ∃ t, parseTokens source tokens = .ok t ∧ t.children = kids := by
  have ran := script_of_sequence sequence
  unfold parseTokens
  dsimp only
  rw [depth_eq, Symbol.run, ran]
  refine ⟨_, rfl, ?_⟩
  unfold closeNode
  split <;> rfl

end TableLineage.Grammar
