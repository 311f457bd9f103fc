import TableLineage.Grammar.Parse

/-! What a part does when it succeeds is said once, as a relation between the trees and states before and after
it, so that what parsing keeps to is shown by induction over that relation. The first such fact is about the
frontier of a parse: the leaves that were built are the tokens that were read, in front of those still to be
read. Parts that are tried and given up leave no trace in it. -/
namespace TableLineage

open List

namespace Tree

@[simp] theorem leavesAll_append (ts us : List Tree) : leavesAll (ts ++ us) = leavesAll ts ++ leavesAll us := by
  induction ts with
  | nil => rfl
  | cons t ts ih => simp [leavesAll, ih]

@[simp] theorem leavesAll_singleton (t : Tree) : leavesAll [t] = t.leaves := by
  simp [leavesAll]

@[simp] theorem leavesAll_map_leaf (ts : List Token) : leavesAll (ts.map leaf) = ts := by
  induction ts with
  | nil => rfl
  | cons t ts ih => simp [leavesAll, leaves, ih]

/-- Every node that covers tokens starts and stops with them and has the text between. -/
inductive Bounded (source : List Char) : Tree → Prop
  | leaf (t : Token) : Bounded source (.leaf t)
  | node {r f l x cs} (edges : leavesAll cs ≠ [] → (leavesAll cs).head? = some f ∧ (leavesAll cs).getLast? = some l ∧
        x = String.ofList (Text.slice source f.span.start.offset l.span.stop.offset))
      (all : ∀ c ∈ cs, Bounded source c) : Bounded source (.node r f l x cs)

end Tree

namespace Grammar

open Tree (leavesAll)

/-- From one state to another just the tokens `taken` are read, and not the last one. -/
structure State.Reads (s : State) (taken : List Token) (s' : State) : Prop where
  rest : s.rest = taken ++ s'.rest
  count : s'.read = s.read + taken.length
  last : s'.last = taken.getLast?.getD s.last
  some : s.rest ≠ [] → s'.rest ≠ []
  legal : ∀ t ∈ taken, t.kind ≠ .illegal

/-- From the trees and the state before a part to those after it. -/
inductive Part.Ran (source : List Char) : Part Symbol → List Tree → State → List Tree → State → Prop
  | done {acc s} : Ran source .done acc s acc s
  | take {acc s t s'} (reads : s.Reads [t] s') : Ran source .take acc s (acc ++ [.leaf t]) s'
  | need {c fault acc s t s'} (fits : c.holds t.toLexeme) (reads : s.Reads [t] s') :
      Ran source (.need c fault) acc s (acc ++ [.leaf t]) s'
  | seq {a b acc s middle s₁ out s'} (first : Ran source a acc s middle s₁) (second : Ran source b middle s₁ out s') :
      Ran source (.seq a b) acc s out s'
  | goes {l a b acc s out s'} (success : l.holds s.rest) (first : Ran source a acc s out s') :
      Ran source (.branch l a b) acc s out s'
  | turns {l a b acc s out s'} (failure : l.holds s.rest = false) (second : Ran source b acc s out s') :
      Ran source (.branch l a b) acc s out s'
  | stop {l a acc s} (ends : l.holds s.rest = false ∨ s.rest = []) : Ran source (.loop l a) acc s acc s
  | last {l a acc s out s'} (success : l.holds s.rest) (first : Ran source a acc s out s') :
      Ran source (.loop l a) acc s out s'
  | round {l a acc s middle s₁ out s'} (success : l.holds s.rest) (first : Ran source a acc s middle s₁)
      (others : Ran source (.loop l a) middle s₁ out s') : Ran source (.loop l a) acc s out s'
  | tried {a b acc s out s'} (first : Ran source a acc s out s') : Ran source (.attempt a b) acc s out s'
  | instead {a b acc s out s'} (second : Ran source b acc s out s') : Ran source (.attempt a b) acc s out s'
  | swallow {stop acc s ts s'} (reads : s.Reads ts s') (inside : ∀ t ∈ ts, t.kind ≠ .eof) :
      Ran source (.swallow stop) acc s (acc ++ ts.map .leaf) s'
  | call {u acc s out s'} (inner : Ran source (Symbol.production u) acc s out s') : Ran source (.call u) acc s out s'
  | node {r a acc s children s'} {depth : Nat} (ran : a.run source (Symbol.run source depth) [] s = .ok (children, s'))
      (inner : Ran source a [] s children s') :
      Ran source (.node r a) acc s (acc ++ [closeNode source r s.current (s'.read = s.read) s' children]) s'
  | group {a acc s children s'} (inner : Ran source a [] s children s') :
      Ran source (.group a) acc s (acc ++ children) s'
  | wrap {r a acc s children s'} (inner : Ran source a acc s children s') :
      Ran source (.wrap r a) acc s [closeNode source r ((children.head?.map Tree.first).getD s.current)
        (acc.isEmpty && s'.read = s.read) s' children] s'

variable {source : List Char} {acc out : List Tree} {s s' : State} {depth n : Nat} {σ : Type}

namespace State.Reads

variable {s'' : State} {taken more : List Token}

theorem refl (s : State) : s.Reads [] s := ⟨rfl, rfl, rfl, id, by simp⟩

theorem trans (first : s.Reads taken s') (second : s'.Reads more s'') : s.Reads (taken ++ more) s'' := by
  refine ⟨?_, ?_, ?_, fun inside => second.some (first.some inside), forall_mem_append.2 ⟨first.legal, second.legal⟩⟩
  · rw [first.rest, second.rest, append_assoc]
  · rw [second.count, first.count, length_append, Nat.add_assoc]
  · rw [second.last, first.last, getLast?_append]
    cases more.getLast? <;> simp

theorem length_le (reads : s.Reads taken s') : s'.rest.length ≤ s.rest.length := by
  simp [reads.rest]

end State.Reads

/-! ### What a part does when it succeeds -/

theorem Step.take_ok (ran : Step.take acc s = .ok (out, s')) : ∃ t, out = acc ++ [.leaf t] ∧ s.Reads [t] s' := by
  unfold Step.take at ran
  split at ran
  · next t u ts rest =>
    split at ran
    · cases ran
    · next legal =>
      cases ran
      exact ⟨t, rfl, rest, rfl, rfl, by simp, by simpa using legal⟩
  · cases ran

theorem Step.andThen_ok {a b : Step} (ran : a.andThen b acc s = .ok (out, s')) :
    ∃ middle s'', a acc s = .ok (middle, s'') ∧ b middle s'' = .ok (out, s') := by
  unfold Step.andThen at ran
  split at ran
  · next middle s'' one => exact ⟨middle, s'', one, ran⟩
  · cases ran

theorem Part.run_node (source : List Char) (call : σ → Step) (r : Rule) (a : Part σ) (acc : List Tree) (s : State) :
    (node r a).run source call acc s = (a.run source call [] s).map fun x =>
      (acc ++ [closeNode source r s.current (x.2.read = s.read) x.2 x.1], x.2) := by
  simp only [run]
  cases a.run source call [] s <;> rfl

theorem Part.run_group (source : List Char) (call : σ → Step) (a : Part σ) (acc : List Tree) (s : State) :
    (group a).run source call acc s = (a.run source call [] s).map fun x => (acc ++ x.1, x.2) := by
  simp only [run]
  cases a.run source call [] s <;> rfl

theorem Part.run_wrap (source : List Char) (call : σ → Step) (r : Rule) (a : Part σ) (acc : List Tree) (s : State) :
    (wrap r a).run source call acc s = (a.run source call acc s).map fun x =>
      ([closeNode source r ((x.1.head?.map Tree.first).getD s.current) (acc.isEmpty && x.2.read = s.read) x.2 x.1],
        x.2) := by
  simp only [run]
  cases a.run source call acc s <;> rfl

namespace Part

theorem ran_of_loop {l : Look} {a : Part Symbol} {step : Step}
    (each : ∀ acc s out s', step acc s = .ok (out, s') → Ran source a acc s out s') (some : n = 0 → s.rest = [])
    (ran : Step.loop l step n acc s = .ok (out, s')) : Ran source (.loop l a) acc s out s' := by
  induction n generalizing acc s with
  | zero =>
    cases ran
    exact .stop (.inr (some rfl))
  | succ n ih =>
    rw [Step.loop] at ran
    split at ran
    · next success =>
      obtain ⟨middle, s₁, one, more⟩ := Step.andThen_ok ran
      cases n with
      | zero =>
        cases more
        exact .last success (each _ _ _ _ one)
      | succ n => exact .round success (each _ _ _ _ one) (ih (by simp) more)
    · next failure =>
      cases ran
      exact .stop (.inl (Bool.eq_false_iff.2 failure))

theorem ran_of_swallow {stop : Option Kind} (ran : Step.swallow stop n depth acc s = .ok (out, s')) :
    ∃ ts, out = acc ++ ts.map .leaf ∧ s.Reads ts s' ∧ ∀ t ∈ ts, t.kind ≠ .eof := by
  induction n generalizing depth acc s with
  | zero =>
    cases ran
    exact ⟨[], by simp, .refl _, by simp⟩
  | succ n ih =>
    simp only [Step.swallow] at ran
    split at ran
    · cases ran
      exact ⟨[], by simp, .refl _, by simp⟩
    · next goes =>
      obtain ⟨_, _, one, more⟩ := Step.andThen_ok ran
      obtain ⟨t, rfl, reads⟩ := Step.take_ok one
      obtain ⟨ts, rfl, others, inside⟩ := ih more
      have here : t.kind ≠ .eof := by
        rintro eof
        simp [State.current, reads.rest, Step.stopsAt, eof] at goes
      exact ⟨t :: ts, by simp, reads.trans others, forall_mem_cons.2 ⟨here, inside⟩⟩

theorem ran_of_calls
    (calls : ∀ u acc s out s', Symbol.run source depth u acc s = .ok (out, s') → Ran source (.call u) acc s out s')
    (p : Part Symbol) (ran : p.run source (Symbol.run source depth) acc s = .ok (out, s')) :
    Ran source p acc s out s' := by
  induction p generalizing acc s out s' with
  | done =>
    cases ran
    exact .done
  | take =>
    obtain ⟨t, rfl, reads⟩ := Step.take_ok ran
    exact .take reads
  | need c fault =>
    simp only [run] at ran
    split at ran
    · next fits =>
      obtain ⟨t, rfl, reads⟩ := Step.take_ok ran
      exact .need (by simpa [State.current, reads.rest] using fits) reads
    · cases ran
  | fail => cases ran
  | seq a b first second =>
    obtain ⟨_, _, one, two⟩ := Step.andThen_ok ran
    exact .seq (first one) (second two)
  | branch l a b first second =>
    simp only [run] at ran
    split at ran
    · next success => exact .goes success (first ran)
    · next failure => exact .turns (Bool.eq_false_iff.2 failure) (second ran)
  | loop l a ih => exact ran_of_loop (fun _ _ _ _ => ih) length_eq_zero_iff.1 ran
  | attempt a b first second =>
    simp only [run] at ran
    split at ran
    · next one =>
      cases ran
      exact .tried (first one)
    · exact .instead (second ran)
  | swallow stop =>
    obtain ⟨ts, rfl, reads, inside⟩ := ran_of_swallow ran
    exact .swallow reads inside
  | call u => exact calls u acc s out s' ran
  | node r a ih | group a ih | wrap r a ih =>
    simp only [run] at ran
    split at ran
    · next inner =>
      cases ran
      first
      | exact .node inner (ih inner)
      | exact .group (ih inner)
      | exact .wrap (ih inner)
    · cases ran

end Part

theorem Symbol.ran_of_run {u : Symbol} (ran : Symbol.run source depth u acc s = .ok (out, s')) :
    Part.Ran source (.call u) acc s out s' := by
  induction depth generalizing u acc s out s' with
  | zero => cases ran
  | succ depth ih => exact .call (Part.ran_of_calls (fun _ _ _ _ _ => ih) _ ran)

theorem Part.ran_of_run {source : List Char} {depth : Nat} {p : Part Symbol} {acc out : List Tree} {s s' : State}
    (ran : p.run source (Symbol.run source depth) acc s = .ok (out, s')) : Ran source p acc s out s' :=
  ran_of_calls (fun _ _ _ _ _ => Symbol.ran_of_run) p ran

/-! ### The frontier -/

/-- The trees that were built in front of the state. Those after them start where the tokens
still to be read start. -/
structure Frontier (source : List Char) (acc : List Tree) (s : State) : Prop where
  bounded : ∀ t ∈ acc, t.Bounded source
  first : ∀ t ∈ acc.head?, t.first = (leavesAll acc ++ s.rest).head?.getD .none
  last : leavesAll acc ≠ [] → (leavesAll acc).getLast? = some s.last

namespace Frontier

variable {more : List Tree}

theorem nil (source : List Char) (s : State) : Frontier source [] s :=
  ⟨by simp, by simp, by simp [leavesAll]⟩

/-- Trees that cover the tokens read after the frontier extend it. -/
theorem append (frontier : Frontier source acc s) (reads : s.Reads (leavesAll more) s')
    (next : Frontier source more s') : Frontier source (acc ++ more) s' := by
  refine ⟨?_, ?_, ?_⟩
  · intro t member
    obtain before | after := mem_append.1 member
    · exact frontier.bounded t before
    · exact next.bounded t after
  · intro t head
    cases acc with
    | nil => exact next.first t head
    | cons u us =>
      rw [frontier.first t (by simpa using head), reads.rest, Tree.leavesAll_append, append_assoc]
  · intro some
    rw [Tree.leavesAll_append, getLast?_append]
    by_cases none : leavesAll more = []
    · rw [Tree.leavesAll_append, none, append_nil] at some
      simpa [none, reads.last] using frontier.last some
    · simp [next.last none]

theorem leaves {ts : List Token} (reads : s.Reads ts s') : Frontier source (ts.map .leaf) s' := by
  refine ⟨?_, ?_, ?_⟩
  · simpa using fun t _ => Tree.Bounded.leaf t
  · cases ts <;> simp [Tree.first, leavesAll, Tree.leaves]
  · intro some
    rw [Tree.leavesAll_map_leaf] at some ⊢
    rw [reads.last, getLast?_eq_some_getLast some]
    rfl

/-- The trees of a frontier go under a node that starts where they start. -/
theorem closeNode (frontier : Frontier source acc s) (r : Rule) {first : Token} {isEmpty : Bool}
    (starts : first = (leavesAll acc ++ s.rest).head?.getD .none) (empty : isEmpty → leavesAll acc = []) :
    Frontier source [closeNode source r first isEmpty s acc] s := by
  have edges (some : leavesAll acc ≠ []) : (leavesAll acc).head? = .some first := by
    obtain ⟨t, ts, same⟩ := exists_cons_of_ne_nil some
    simp [starts, same]
  unfold Grammar.closeNode
  split
  · next none =>
    refine ⟨?_, by simpa [Tree.first, Tree.leaves] using starts, by simp [Tree.leaves, empty none]⟩
    simpa using Tree.Bounded.node (fun some => absurd (empty none) some) frontier.bounded
  · refine ⟨?_, by simpa [Tree.first, Tree.leaves] using starts, by simpa [Tree.leaves] using frontier.last⟩
    simpa using Tree.Bounded.node (fun some => ⟨edges some, frontier.last some, rfl⟩) frontier.bounded

end Frontier

theorem leaves_closeNode (source : List Char) (r : Rule) (first : Token) (isEmpty : Bool) (s : State)
    (acc : List Tree) : (closeNode source r first isEmpty s acc).leaves = leavesAll acc := by
  unfold closeNode
  split <;> rfl

/-- A step that adds just the leaves of the tokens that it reads. -/
def Step.Advances (source : List Char) (step : Step) : Prop :=
  ∀ acc s out s', step acc s = .ok (out, s') → ∃ taken, s.Reads taken s' ∧
    leavesAll out = leavesAll acc ++ taken ∧ (Frontier source acc s → Frontier source out s')

namespace Part.Ran

variable {p : Part Symbol}

theorem advances (ran : Ran source p acc s out s') : ∃ taken, s.Reads taken s' ∧
    leavesAll out = leavesAll acc ++ taken ∧ (Frontier source acc s → Frontier source out s') := by
  induction ran with
  | @done _ s | @stop _ _ _ s => exact ⟨[], .refl s, by simp, id⟩
  | take reads | need _ reads | swallow reads =>
    refine ⟨_, reads, by simp [Tree.leaves], fun frontier => frontier.append ?_ (.leaves reads)⟩
    simpa [Tree.leaves] using reads
  | seq _ _ first second | round _ _ _ first second =>
    obtain ⟨taken, reads, leaves, keeps⟩ := first
    obtain ⟨more, reads', leaves', keeps'⟩ := second
    refine ⟨taken ++ more, reads.trans reads', ?_, fun frontier => keeps' (keeps frontier)⟩
    rw [leaves', leaves, append_assoc]
  | goes _ _ ih | turns _ _ ih | last _ _ ih | tried _ ih | instead _ ih | call _ ih => exact ih
  | @node r _ acc s children s' _ _ _ ih =>
    obtain ⟨_, reads, rfl, keeps⟩ := ih
    have inside := keeps (.nil source s)
    have starts : s.current = (leavesAll children ++ s'.rest).head?.getD .none := by
      rw [State.current, reads.rest]
    have none : decide (s'.read = s.read) = true → leavesAll children = [] := by
      intro same
      simpa [reads.count] using same
    refine ⟨leavesAll children, reads, by simp [leaves_closeNode], fun frontier => ?_⟩
    refine frontier.append ?_ (inside.closeNode r starts none)
    simpa [leaves_closeNode] using reads
  | @group _ _ s children _ _ ih =>
    obtain ⟨_, reads, rfl, keeps⟩ := ih
    exact ⟨leavesAll children, reads, by simp, fun frontier => frontier.append reads (keeps (.nil source s))⟩
  | @wrap r _ acc s children _ _ ih =>
    obtain ⟨taken, reads, leaves, keeps⟩ := ih
    refine ⟨taken, reads, by simp [leaves_closeNode, leaves], fun frontier => ?_⟩
    have inside := keeps frontier
    refine inside.closeNode r ?_ ?_
    · cases children with
      | nil =>
        have none : taken = [] := (append_eq_nil_iff.1 leaves.symm).2
        simp [State.current, reads.rest, none, leavesAll]
      | cons t ts => exact inside.first t rfl
    · intro empty
      have same : acc = [] ∧ taken = [] := by simpa [reads.count] using empty
      simp [leaves, same, leavesAll]

theorem length_le (ran : Ran source p acc s out s') : s'.rest.length ≤ s.rest.length := by
  obtain ⟨_, reads, _⟩ := ran.advances
  exact reads.length_le

end Part.Ran

theorem Symbol.run_advances (source : List Char) (depth : Nat) (s : Symbol) :
    (Symbol.run source depth s).Advances source :=
  fun _ _ _ _ ran => (ran_of_run ran).advances

/-! ### Up to the end of the text -/

/-- A loop that reads something each time ends where its look fails. -/
theorem Step.loop_ends {l : Look} {a : Step} (stops : l.holds [] = false)
    (shrinks : ∀ acc s out s', l.holds s.rest → a acc s = .ok (out, s') → s'.rest.length < s.rest.length)
    (enough : s.rest.length ≤ n) (ran : Step.loop l a n acc s = .ok (out, s')) : l.holds s'.rest = false := by
  induction n generalizing acc s with
  | zero =>
    cases ran
    rwa [length_eq_zero_iff.1 (Nat.le_zero.1 enough)]
  | succ n ih =>
    rw [Step.loop] at ran
    split at ran
    · next success =>
      obtain ⟨middle, s'', one, rest⟩ := andThen_ok ran
      have less := shrinks acc s middle s'' success one
      exact ih (by omega) rest
    · next failure =>
      cases ran
      exact Bool.eq_false_iff.2 failure

theorem Step.take_shrinks (ran : Step.take acc s = .ok (out, s')) : s'.rest.length < s.rest.length := by
  obtain ⟨t, _, reads⟩ := take_ok ran
  simp [reads.rest]

theorem statementEnd_iff {ts : List Token} :
    Look.statementEnd.holds ts = true ↔ (peek ts 0).kind = .semicolon ∨ (peek ts 0).kind = .eof := by
  simp [Look.statementEnd, Look.isAny, Look.holds, Class.holds]

theorem is_iff {k : Kind} {ts : List Token} : (Look.is k).holds ts = true ↔ (peek ts 0).kind = k := by
  simp [Look.is, Look.holds, Class.holds]

/-- What a script repeats: a statement, its end, and semicolons. -/
def round : Part Symbol :=
  .all [.call .statement, .branch .statementEnd .done (.fail .unexpected), .loop (.is .semicolon) .take]

/-- A statement may read nothing, but then a semicolon is there to be read. -/
theorem round_shrinks (more : (Look.not (.is .eof)).holds s.rest) (ran : Part.Ran source round acc s out s') :
    s'.rest.length < s.rest.length := by
  simp only [round, Part.all] at ran
  cases ran with
  | seq statement rest =>
    cases rest with
    | seq ended semicolons =>
      cases ended with
      | turns _ failed => cases failed
      | goes stop inner =>
        cases inner
        obtain ⟨taken, reads, _⟩ := statement.advances
        have fewer := semicolons.length_le
        cases taken with
        | cons t ts =>
          simp only [reads.rest, length_append, length_cons]
          omega
        | nil =>
          rw [reads.rest, nil_append] at more ⊢
          have mark := (statementEnd_iff.1 stop).resolve_right fun eof => by simp [Look.holds, is_iff.2 eof] at more
          cases semicolons with
          | stop ends =>
            obtain clear | none := ends
            · rw [is_iff.2 mark] at clear
              cases clear
            · rw [none] at mark
              cases mark
          | last _ first =>
            cases first with
            | take reads => simp [reads.rest]
          | round _ first others =>
            have fewer := others.length_le
            cases first with
            | take reads =>
              simp only [reads.rest, length_append, length_cons]
              omega

/-- A script is read up to the end of the text. -/
theorem script_ends (ran : (Symbol.production .script).run source (Symbol.run source depth) [] s = .ok (out, s')) :
    (∃ t, out = [t]) ∧ (peek s'.rest 0).kind = .eof := by
  simp only [Symbol.production, Part.run] at ran
  split at ran
  · next children _ inner =>
    cases ran
    obtain ⟨_, _, _, statements⟩ := Step.andThen_ok inner
    have shrinks : ∀ acc s out s', (Look.not (.is .eof)).holds s.rest →
        round.run source (Symbol.run source depth) acc s = .ok (out, s') → s'.rest.length < s.rest.length :=
      fun _ _ _ _ more one => round_shrinks more (Part.ran_of_run one)
    have stopped := Step.loop_ends rfl shrinks (Nat.le_refl _) statements
    exact ⟨⟨_, rfl⟩, by simpa [Look.is, Look.holds, Class.holds] using stopped⟩
  · cases ran

end Grammar
end TableLineage
