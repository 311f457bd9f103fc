import TableLineage.Proofs.Formula.Operators

/-! Every formula is found where it is written. The induction is over formulas; on a level that
chains, it is carried by what starts a chain. -/
namespace TableLineage

open List
open Grammar (Symbol Part)

variable {source : List Char} {ts us : List Token}

namespace Formula

/-- The tokens are read as the formula, on its own level and as the start of a chain. -/
def Found (source : List Char) (ts : List Token) : {s : Shape} → Formula s → Prop
  | .single, e => Stands source e.level ts e ∧ Heads source e.level ts e
  | .row, es => Lists source ts es

/-- Wherever the formula is written, it is found. -/
def Recovered (source : List Char) {s : Shape} (e : Formula s) : Prop :=
  ∀ ts, ts.map Token.toLexeme = e.lexemes → Spelled source ts → Found source ts e

namespace Recovered

variable {e : Formula .single} {ℓ : Level}

theorem lower (recovered : Recovered source e) (same : ts.map Token.toLexeme = e.lexemes) (spelled : Spelled source ts)
    (below : ℓ.rank ≤ e.level.rank) : Stands source ℓ ts e := by
  obtain ⟨l, ls, head, starts⟩ := e.opens.head
  obtain ⟨t, us, rfl, rfl, _⟩ := map_eq_cons_iff.1 (same.trans head)
  exact (recovered _ same spelled).1.lower rfl starts below

/-- An operand stands where it is written, with parentheses where it needs them. -/
theorem operand (recovered : Recovered source e) (same : ts.map Token.toLexeme = e.operand ℓ)
    (spelled : Spelled source ts) : Stands source ℓ ts e := by
  unfold Formula.operand enclose at same
  split at same
  · obtain ⟨left, _, rfl, opening, after⟩ := map_eq_cons_iff.1 same
    obtain ⟨us, _, rfl, inner, closed⟩ := map_eq_append_iff.1 after
    obtain ⟨right, rfl, closing⟩ := map_eq_singleton_iff.1 closed
    have kind : left.kind = .lparen := congrArg Lexeme.kind opening
    have inside : Stands source .or us e :=
      recovered.lower inner (spelled.part ⟨[left], [right], by simp⟩) (Nat.zero_le _)
    have opens : Opens .or (us.map Token.toLexeme) := inner ▸ e.opens.mono (Nat.zero_le _)
    exact (inside.parenthesized opens kind closing).lower rfl ⟨.primary, by rw [kind]; rfl, Nat.le_refl _⟩ ℓ.rank_le
  · rename_i high
    exact recovered.lower same spelled (by simpa using high)

/-- On a level that chains, a left operand starts a chain. -/
theorem chain (recovered : Recovered source e) (same : ts.map Token.toLexeme = e.operand ℓ)
    (spelled : Spelled source ts) (inner : ℓ ≠ .primary) : Heads source ℓ ts e := by
  by_cases level : e.level = ℓ
  · subst level
    have plain : e.operand e.level = e.lexemes := by simp [Formula.operand, enclose]
    exact (recovered ts (same.trans plain) spelled).2
  · have next := Level.rank_next_of_ne inner
    have other : e.level.rank ≠ ℓ.rank := fun equal => level (Level.rank_inj equal)
    have further : e.operand ℓ = e.operand ℓ.next := by
      have bound : e.level.rank < ℓ.rank ↔ e.level.rank < ℓ.next.rank := by omega
      simp only [Formula.operand, bound]
    exact (recovered.operand (same.trans further) spelled).heads

end Recovered

theorem heads_of_unlinked {ℓ : Level} (none : ℓ.link? = .none) (e : Formula .single) : Heads source ℓ ts e := by
  intro p link
  rw [none] at link
  cases link

theorem found_of_link {e l : Formula .single} {p : Symbol.Production} {r : Rule} (heads : Heads source e.level ts l)
    (link : Link source e.level us l e) (chains : e.level.link? = some p) (rule : e.level.rule? = some r) :
    Found source (ts ++ us) e :=
  ⟨heads.stands link chains rule, heads.extend link⟩

end Formula

namespace BinarySign

/-- Every operator but the comparisons links its right operand to a chain. -/
theorem link {op : BinarySign} (chains : op.level ≠ .compare) {l r : Formula .single}
    (same : ts.map Token.toLexeme = op.lexemes) (right : Stands source op.level.next us r) :
    Link source op.level (ts ++ us) l (.binary l op r) := by
  match op with
  | custom sign => exact .custom same right
  | distinctFrom negated =>
    have split : (distinctFrom negated).lexemes = (Kind.keyword .IS).lexeme :: (Formula.negation negated ++
        [(Kind.keyword .DISTINCT).lexeme, (Kind.keyword .FROM).lexeme]) := by
      cases negated <;> rfl
    obtain ⟨word, _, rfl, mark, after⟩ := map_eq_cons_iff.1 (same.trans split)
    obtain ⟨nots, _, rfl, negation, words⟩ := map_eq_append_iff.1 after
    obtain ⟨second, _, rfl, distinct, last⟩ := map_eq_cons_iff.1 words
    obtain ⟨third, rfl, from'⟩ := map_eq_singleton_iff.1 last
    rw [cons_append, append_assoc]
    exact .distinct mark negation distinct from' right
  | atTimeZone =>
    obtain ⟨first, _, rfl, at', after⟩ := map_eq_cons_iff.1 same
    obtain ⟨second, _, rfl, time, last⟩ := map_eq_cons_iff.1 after
    obtain ⟨third, rfl, zone⟩ := map_eq_singleton_iff.1 last
    exact .zoned at' time zone right
  | or | and | plus | minus | times | divided | modulo | power =>
    obtain ⟨t, rfl, mark⟩ := map_eq_singleton_iff.1 same
    exact .sign mark (by decide) right rfl (fun _ _ _ _ => rfl) rfl (by decide) rfl rfl
  | equals | notEquals | less | lessEqual | greater | greaterEqual => exact absurd rfl chains

theorem compare {op : BinarySign} (single : op.level = .compare) {l r : Formula .single} {vs : List Token}
    (left : Stands source op.leftLevel ts l) (same : us.map Token.toLexeme = op.lexemes)
    (right : Stands source op.level.next vs r) (opens : Opens op.level.next (vs.map Token.toLexeme)) :
    Stands source op.level (ts ++ (us ++ vs)) (.binary l op r) := by
  match op with
  | equals | notEquals | less | lessEqual | greater | greaterEqual =>
    obtain ⟨t, rfl, mark⟩ := map_eq_singleton_iff.1 same
    exact .compare left mark (by decide) rfl right opens
  | custom _ | distinctFrom _ | atTimeZone | or | and | plus | minus | times | divided | modulo | power => cases single

theorem inner (op : BinarySign) : op.level ≠ .primary := by
  cases op <;> exact Level.noConfusion

theorem chains {op : BinarySign} (other : op.level ≠ .compare) :
    ∃ p r, op.level.link? = some p ∧ op.level.rule? = some r := by
  cases op <;> first | exact ⟨_, _, rfl, rfl⟩ | exact absurd rfl other

end BinarySign

theorem UnarySign.stands {op : UnarySign} {e : Formula .single} (same : ts.map Token.toLexeme = op.lexemes)
    (operand : Stands source op.operandLevel us e) : Stands source op.level (ts ++ us) (.unary op e) := by
  cases op with
  | custom sign => exact .customFront same operand
  | not | plus | minus =>
    obtain ⟨t, rfl, mark⟩ := map_eq_singleton_iff.1 same
    have kind := congrArg Lexeme.kind mark
    exact .unary kind (by decide) rfl rfl rfl (fun ts => by simp [kind, Kind.lexeme]) (fun _ _ => rfl) operand

namespace Formula

theorem recovered {s : Shape} (e : Formula s) : Recovered source e := by
  induction e with
  | column name =>
    intro ts same spelled
    obtain ⟨t, rfl, here⟩ := map_eq_singleton_iff.1 same
    exact ⟨.column here, heads_of_unlinked rfl _⟩
  | constant value =>
    intro ts same spelled
    obtain ⟨t, rfl, here⟩ := map_eq_singleton_iff.1 same
    exact ⟨.constant here spelled, heads_of_unlinked rfl _⟩
  | binary l op r left right =>
    intro ts same spelled
    obtain ⟨us, _, rfl, first, after⟩ := map_eq_append_iff.1 same
    obtain ⟨signs, vs, rfl, sign, second⟩ := map_eq_append_iff.1 after
    have front : Spelled source us := spelled.part ⟨[], signs ++ vs, by simp⟩
    have back := right.operand second (spelled.part ⟨us ++ signs, [], by simp⟩)
    by_cases single : op.level = .compare
    · have opens : Opens op.level.next (vs.map Token.toLexeme) := second ▸ opens_operand r.opens _
      have stands := op.compare single (left.operand first front) sign back opens
      refine ⟨stands, heads_of_unlinked ?_ _⟩
      change op.level.link? = _
      rw [single]
      rfl
    · have same : op.leftLevel = op.level := if_neg single
      have heads := left.chain (same ▸ first) front op.inner
      obtain ⟨p, r, chains, rule⟩ := op.chains single
      exact found_of_link heads (op.link single sign back) chains rule
  | unary op e ih =>
    intro ts same spelled
    obtain ⟨signs, us, rfl, sign, operand⟩ := map_eq_append_iff.1 same
    have stands := ih.operand operand (spelled.part ⟨signs, [], by simp⟩)
    exact ⟨op.stands sign stands, heads_of_unlinked (by cases op <;> rfl) _⟩
  | test e negated word ih =>
    intro ts same spelled
    obtain ⟨us, _, rfl, operand, after⟩ := map_eq_append_iff.1 same
    obtain ⟨mark, _, rfl, is, further⟩ := map_eq_cons_iff.1 after
    obtain ⟨nots, _, rfl, negation, last⟩ := map_eq_append_iff.1 further
    obtain ⟨test, rfl, question⟩ := map_eq_singleton_iff.1 last
    have heads : Heads source .is us e := ih.chain operand (spelled.part ⟨[], _, rfl⟩) (by decide)
    exact found_of_link heads (.worded is negation question) rfl rfl
  | between t negated symmetric l u target lower upper =>
    intro ts same spelled
    obtain ⟨us, _, rfl, first, after⟩ := map_eq_append_iff.1 same
    obtain ⟨nots, _, rfl, negation, words⟩ := map_eq_append_iff.1 after
    obtain ⟨word, _, rfl, mark, inner⟩ := map_eq_cons_iff.1 words
    obtain ⟨mids, _, rfl, middle, bounds⟩ := map_eq_append_iff.1 inner
    obtain ⟨vs, _, rfl, second, last⟩ := map_eq_append_iff.1 bounds
    obtain ⟨and', ws, rfl, also, third⟩ := map_eq_cons_iff.1 last
    have opens : Opens .within (vs.map Token.toLexeme) := second ▸ opens_operand l.opens .within
    have stands := Stands.between (target.operand first (spelled.part ⟨[], _, rfl⟩)) negation mark middle
      (lower.operand second (spelled.part ⟨us ++ (nots ++ word :: mids), and' :: ws, by simp⟩)) opens also
      (upper.operand third (spelled.part ⟨us ++ (nots ++ word :: (mids ++ (vs ++ [and']))), [], by simp⟩))
    exact ⟨stands, heads_of_unlinked rfl _⟩
  | within t negated items target row =>
    intro ts same spelled
    obtain ⟨us, _, rfl, first, after⟩ := map_eq_append_iff.1 same
    obtain ⟨nots, _, rfl, negation, words⟩ := map_eq_append_iff.1 after
    obtain ⟨word, _, rfl, mark, inner⟩ := map_eq_cons_iff.1 words
    obtain ⟨left, _, rfl, opening, list⟩ := map_eq_cons_iff.1 inner
    obtain ⟨vs, _, rfl, second, closed⟩ := map_eq_append_iff.1 list
    obtain ⟨right, rfl, closing⟩ := map_eq_singleton_iff.1 closed
    have opens : Opens .or (vs.map Token.toLexeme) := second ▸ items.opens.mono (Nat.zero_le _)
    have lists : Lists source vs items := row vs second
      (spelled.part ⟨us ++ (nots ++ [word, left]), [right], by simp⟩)
    have stands := Stands.within (target.operand first (spelled.part ⟨[], _, rfl⟩)) negation mark
      (congrArg Lexeme.kind opening) lists opens closing
    exact ⟨stands, heads_of_unlinked rfl _⟩
  | like t negated ignoreCase p target pattern =>
    intro ts same spelled
    obtain ⟨us, _, rfl, first, after⟩ := map_eq_append_iff.1 same
    obtain ⟨nots, _, rfl, negation, words⟩ := map_eq_append_iff.1 after
    obtain ⟨word, vs, rfl, mark, second⟩ := map_eq_cons_iff.1 words
    have stands := Stands.like (target.operand first (spelled.part ⟨[], _, rfl⟩)) negation mark
      (pattern.operand second (spelled.part ⟨us ++ (nots ++ [word]), [], by simp⟩))
    exact ⟨stands, heads_of_unlinked rfl _⟩
  | collate e name ih =>
    intro ts same spelled
    obtain ⟨us, _, rfl, first, after⟩ := map_eq_append_iff.1 same
    obtain ⟨word, vs, rfl, mark, second⟩ := map_eq_cons_iff.1 after
    have stands := Stands.collate (ih.operand first (spelled.part ⟨[], _, rfl⟩)) mark second
      (spelled.part ⟨us ++ [word], [], by simp⟩)
    exact ⟨stands, heads_of_unlinked rfl _⟩
  | cast e type ih =>
    intro ts same spelled
    obtain ⟨us, _, rfl, first, after⟩ := map_eq_append_iff.1 same
    obtain ⟨mark, vs, rfl, sign, second⟩ := map_eq_cons_iff.1 after
    have heads : Heads source .cast us e := ih.chain first (spelled.part ⟨[], _, rfl⟩) (by decide)
    exact found_of_link heads (.cast sign second (spelled.part ⟨us ++ [mark], [], by simp⟩)) rfl rfl
  | last e ih =>
    intro ts same spelled
    exact .last (ih.lower same spelled (Nat.zero_le _))
  | cons e es first rest =>
    intro ts same spelled
    obtain ⟨us, _, rfl, item, after⟩ := map_eq_append_iff.1 same
    obtain ⟨comma, vs, rfl, mark, others⟩ := map_eq_cons_iff.1 after
    have stands : Stands source .or us e := first.lower item (spelled.part ⟨[], _, rfl⟩) (Nat.zero_le _)
    exact .cons stands mark (rest vs others (spelled.part ⟨us ++ [comma], [], by simp⟩))

end Formula

end TableLineage
