import TableLineage.Proofs.Grammar.Ahead
import TableLineage.Proofs.Grammar.Frontier

/-! How deep a parse goes. Between two tokens productions are entered in the order of their ranks,
so from some depth on, which the number of tokens gives, more depth makes no difference. -/
namespace TableLineage.Grammar

open List

namespace Symbol

/-- The kinds in front of which a production surely reads a token; none given, it always does. -/
def bites : Symbol → Option (List Kind)
  | .script | .statement | .statementBody | .otherStmt | .createStmt | .aliasPart | .joinType
  | .nullTreatment => some []
  | .indirection => some [.lbracket]
  | _ => none

/-- A production goes down in rank until it reads a token. -/
def rank : Symbol → Nat
  | .targetList => 23
  | .target | .groupItem | .sortBy | .exprList => 22
  | .orExpr => 21
  | .andExpr => 20
  | .betweenExpr => 19
  | .inExpr => 18
  | .notExpr => 17
  | .isNullExpr => 16
  | .isExpr => 15
  | .compareExpr => 14
  | .likeExpr => 13
  | .qualOpExpr => 12
  | .prefixOpExpr => 11
  | .addExpr => 10
  | .mulExpr => 9
  | .caretExpr | .script => 8
  | .signExpr | .statement => 7
  | .timeZoneExpr | .statementBody => 6
  | .collateExpr | .query => 5
  | .castExpr | .queryRest => 4
  | .primary | .selectClause => 3
  | .parenPrimary | .createStmt | .intersectTerm | .tableRef | .tablePrimary => 2
  | .selectExpr | .typedConstant | .createTableAs | .createTable | .selectPrimary | .tableSource
  | .join | .inSource => 1
  | _ => 0

theorem rank_lt_count (s : Symbol) : s.rank < count := by
  cases s <;> decide

end Symbol

namespace Part

/-- Whether a part that succeeds has surely read a token. -/
def eats : Part Symbol → Ahead → Bool
  | .take, _ | .need .., _ | .fail _, _ => true
  | .done, _ | .swallow _, _ => false
  | .seq a b, k => a.eats k || b.eats .anything
  | .branch l a b, k => a.eats (k.meet l.told) && b.eats (l.untold k)
  | .loop l a, k => l.bound k && a.eats l.told
  | .attempt a b, k => a.eats k && b.eats k
  | .call s, k => k.entails s.bites
  | .node _ a, k | .group a, k | .wrap _ a, k => a.eats k

/-- The productions that a part may enter before it has read a token. -/
def opening : Part Symbol → List Symbol
  | .seq a b => a.opening ++ if a.eats .anything then [] else b.opening
  | .branch _ a b | .attempt a b => a.opening ++ b.opening
  | .call s => [s]
  | .loop _ a | .node _ a | .group a | .wrap _ a => a.opening
  | .done | .take | .need .. | .fail _ | .swallow _ => []

end Part

theorem production_eats (s : Symbol) : s.bites = some [] ∨ s.production.eats [[s.bites]] := by
  cases s <;> decide +kernel

theorem rank_lt_of_opening {s t : Symbol} (opens : t ∈ s.production.opening) : t.rank < s.rank := by
  have all : s.production.opening.all fun t => t.rank < s.rank := by
    cases s <;> decide +kernel
  simpa using all_eq_true.1 all t opens

/-- Where `k` is known, a step that succeeds reads a token. -/
def Step.Eats (step : Step) (k : Ahead) : Prop :=
  ∀ acc s out s', k.Holds s.rest → step acc s = .ok (out, s') → s'.rest.length < s.rest.length

theorem Part.Ran.eats {source : List Char} {p : Part Symbol} {acc out : List Tree} {s s' : State} {k : Ahead}
    (ran : Ran source p acc s out s') (eats : p.eats k) (known : k.Holds s.rest) : s'.rest.length < s.rest.length := by
  induction ran generalizing k with
  | done | swallow => cases eats
  | take reads | need _ reads => simp [reads.rest]
  | seq one two first second =>
    obtain eats | eats := Bool.or_eq_true_iff.1 eats
    · exact Nat.lt_of_le_of_lt two.length_le (first eats known)
    · exact Nat.lt_of_lt_of_le (second eats (Ahead.holds_anything _)) one.length_le
  | goes success _ ih => exact ih (Bool.and_eq_true_iff.1 eats).1 (known.meet (Look.holds_told success))
  | turns failure _ ih => exact ih (Bool.and_eq_true_iff.1 eats).2 (Look.holds_untold known failure)
  | stop ends =>
    obtain ⟨success, inside⟩ := Look.holds_of_bound known (Bool.and_eq_true_iff.1 eats).1
    obtain failure | none := ends
    · rw [success] at failure
      cases failure
    · exact absurd none inside
  | last success _ ih => exact ih (Bool.and_eq_true_iff.1 eats).2 (Look.holds_told success)
  | round success _ others ih =>
    exact Nat.lt_of_le_of_lt others.length_le (ih (Bool.and_eq_true_iff.1 eats).2 (Look.holds_told success))
  | tried _ ih => exact ih (Bool.and_eq_true_iff.1 eats).1 known
  | instead _ ih => exact ih (Bool.and_eq_true_iff.1 eats).2 known
  | @call u _ _ _ _ _ ih =>
    have known : Ahead.Holds [[u.bites]] _ := ⟨_, mem_singleton_self _, known.of_entails eats, trivial⟩
    obtain never | eats := production_eats u
    · obtain ⟨g, member, fits⟩ := known
      rw [mem_singleton.1 member, never] at fits
      cases fits.1 [] rfl
    · exact ih eats known
  | node _ _ ih | group _ ih | wrap _ ih => exact ih eats known

variable {acc : List Tree} {m : Nat}

/-- Repeated steps stay the same as long as the steps do, since no step brings tokens back. -/
theorem Step.loop_congr {l : Look} {a a' : Step}
    (fewer : ∀ acc s out s', a acc s = .ok (out, s') → s'.rest.length ≤ s.rest.length)
    (same : ∀ acc s, s.rest.length ≤ m → a acc s = a' acc s) (n : Nat) {s : State} (few : s.rest.length ≤ m) :
    Step.loop l a n acc s = Step.loop l a' n acc s := by
  induction n generalizing acc s with
  | zero => rfl
  | succ n ih =>
    simp only [Step.loop, Step.andThen, ← same acc s few]
    split
    · split
      · next ran => exact ih (Nat.le_trans (fewer _ _ _ _ ran) few)
      · rfl
    · rfl

namespace Part

variable {source : List Char} {d d' : Nat}

theorem run_eats (p : Part Symbol) {k : Ahead} (eats : p.eats k) : (p.run source (Symbol.run source d)).Eats k :=
  fun _ _ _ _ known ran => (ran_of_run ran).eats eats known

/-- A part runs as before if the productions that it opens with do, and the others do once a
token is read. -/
theorem run_congr (p : Part Symbol)
    (below : ∀ s acc st, st.rest.length < m → Symbol.run source d s acc st = Symbol.run source d' s acc st)
    (opening : ∀ s ∈ p.opening, ∀ acc st, st.rest.length ≤ m →
      Symbol.run source d s acc st = Symbol.run source d' s acc st) {st : State} (few : st.rest.length ≤ m) :
    p.run source (Symbol.run source d) acc st = p.run source (Symbol.run source d') acc st := by
  induction p generalizing acc st m with
  | done | take | need | fail | swallow => rfl
  | seq a b first second =>
    have same : a.run source (Symbol.run source d) acc st = a.run source (Symbol.run source d') acc st :=
      first below (fun s opens => opening s (mem_append_left _ opens)) few
    simp only [run, Step.andThen, ← same]
    split
    · next acc' st' ran =>
      have fewer := (ran_of_run ran).length_le
      by_cases eats : a.eats .anything
      · have less := (ran_of_run ran).eats eats (Ahead.holds_anything _)
        refine second (fun s acc st small => below s acc st ?_) (fun s _ acc st small => below s acc st ?_)
          (Nat.le_refl _)
        all_goals omega
      · refine second below (fun s opens => opening s (mem_append_right _ ?_)) (by omega)
        rwa [if_neg eats]
    · rfl
  | branch l a b first second =>
    simp only [run]
    rw [first below (fun s opens => opening s (mem_append_left _ opens)) few,
      second below (fun s opens => opening s (mem_append_right _ opens)) few]
  | loop l a ih =>
    exact Step.loop_congr (fun _ _ _ _ ran => (ran_of_run ran).length_le) (fun _ _ => ih below opening) _ few
  | attempt a b first second =>
    simp only [run]
    rw [first below (fun s opens => opening s (mem_append_left _ opens)) few,
      second below (fun s opens => opening s (mem_append_right _ opens)) few]
  | call s => exact opening s (mem_singleton_self s) acc st few
  | node r a ih | group a ih | wrap r a ih =>
    simp only [run]
    rw [ih below opening few]

end Part

/-- From the depth on that the tokens still to be read give, every depth is as good. -/
theorem Symbol.run_eq_of_deep (source : List Char) {d d' : Nat} {s : Symbol} (deep : count * m + s.rank < d)
    (deep' : count * m + s.rank < d') {st : State} (few : st.rest.length ≤ m) :
    Symbol.run source d s acc st = Symbol.run source d' s acc st := by
  induction d generalizing d' m s acc st with
  | zero => omega
  | succ d ih =>
    cases d' with
    | zero => omega
    | succ d' =>
      refine Part.run_congr _ (m := m) ?_ ?_ few
      · intro t acc st less
        have bound := t.rank_lt_count
        have step : count * st.rest.length + count ≤ count * m := Nat.mul_le_mul_left count less
        exact ih (m := st.rest.length) (by omega) (by omega) (Nat.le_refl _)
      · intro t opens acc st few
        have lower := rank_lt_of_opening opens
        exact ih (m := m) (by omega) (by omega) few

end TableLineage.Grammar
