import Mathlib.Algebra.Ring.Int.Defs
import TableLineage.Proofs.Grammar.Ahead

/-! Looks that cannot tell the end of a text from a semicolon. What they see of the tokens of a
statement is the same whether the text ends there or goes on with another statement. -/
namespace TableLineage

open List

variable {k : Kind}

namespace Kind

/-- What a statement ends in front of. -/
def ends : Kind → Bool
  | .eof | .semicolon => true
  | _ => false

/-- How many more parentheses are open after a token of the kind. -/
def weight : Kind → Int
  | .lparen => 1
  | .rparen => -1
  | _ => 0

theorem weight_eq (k : Kind) : k.weight = (if k = .lparen then 1 else 0) - if k = .rparen then 1 else 0 := by
  cases k <;> rfl

theorem mem_all (k : Kind) : k ∈ all := by
  cases k with
  | keyword w =>
    have listed : Keyword.all[w.ctorIdx]? = some w := by
      cases w <;> rfl
    exact mem_append_right _ (mem_map_of_mem (mem_of_getElem? listed))
  | _ => decide

theorem ends_iff : k.ends ↔ k = .eof ∨ k = .semicolon := by
  cases k <;> simp [ends]

end Kind

namespace Grammar

/-- How many more parentheses the tokens open than they close. -/
def net (ts : List Token) : Int := (ts.map fun t => t.kind.weight).sum

@[simp] theorem net_nil : net [] = 0 := rfl

@[simp] theorem net_cons (t : Token) (ts : List Token) : net (t :: ts) = t.kind.weight + net ts := by
  simp [net]

theorem net_eq_countP (ts : List Token) :
    net ts = (ts.countP (·.kind = .lparen) : Int) - ts.countP (·.kind = .rparen) := by
  induction ts with
  | nil => rfl
  | cons t ts ih =>
    rw [net_cons, ih, countP_cons, countP_cons, Kind.weight_eq]
    simp only [decide_eq_true_eq, Int.natCast_add]
    split <;> split <;> omega

variable {ts : List Token} {l : Lexeme}

theorem isLabel_of_isName (name : l.isName) : l.isLabel := by
  simp only [Lexeme.isName, Bool.or_eq_true, Bool.and_eq_true] at name
  exact Bool.or_eq_true_iff.2 (name.imp_right And.left)

namespace Class

/-- Whether a lexeme of the kind may be of the class. -/
def may : Class → Kind → Bool
  | .kind k, j => j = k
  | .anyOf ks, j => ks.contains j
  | .name, j | .bareName, j => j = .ident || (j.isKeyword && !j.isReserved)
  | .label, j | .word _, j => j = .ident || j.isKeyword
  | .amongWords _, j => j = .ident
  | .sign, j => j.isOperator && !(([.lparen, .rparen, .comma, .semicolon] : List Kind).contains j)

/-- The kinds of the lexemes of a class. -/
def within : Class → List Kind
  | .kind k => [k]
  | .anyOf ks => ks
  | c => Kind.all.filter c.may

variable {c : Class}

theorem may_of_holds (holds : c.holds l) : c.may l.kind := by
  cases c with
  | kind | anyOf | sign | name | label => exact holds
  | bareName => exact (Bool.and_eq_true_iff.1 holds).1
  | word w =>
    simp only [Class.holds, Lexeme.isWord, Bool.and_eq_true] at holds
    exact holds.1.2
  | amongWords ws =>
    simp only [Class.holds, Bool.and_eq_true] at holds
    exact holds.1.1

theorem mem_within : k ∈ c.within ↔ c.may k := by
  cases c <;> simp [within, may, Kind.mem_all]

/-- Of what a statement ends in front of, the kind tells the class. -/
theorem holds_eq_may (ends : l.kind.ends) : c.holds l = c.may l.kind := by
  cases c with
  | kind | anyOf | sign | name | label => rfl
  | _ =>
    obtain kind | kind := Kind.ends_iff.1 ends
    all_goals simp [Class.holds, may, kind, Lexeme.isName, Lexeme.isLabel, Lexeme.isWord, Kind.isKeyword]

end Class

/-- Whether the first `n` places are sure to be inside a statement. -/
def Guess.inside : Nat → Guess → Bool
  | 0, _ => true
  | n + 1, some ks :: g => ks.all (fun k => !k.ends) && inside n g
  | _, _ => false

theorem Guess.Fits.length_le {g : Guess} {n : Nat} {more : List Token} {e : Token} (fits : g.Fits (ts ++ e :: more))
    (inside : g.inside n) (ends : e.kind.ends) : n ≤ ts.length := by
  induction n generalizing g ts with
  | zero => exact Nat.zero_le _
  | succ n ih =>
    match g, fits with
    | some ks :: g, ⟨head, rest⟩ =>
      obtain ⟨here, further⟩ := Bool.and_eq_true_iff.1 inside
      cases ts with
      | nil =>
        have within := all_eq_true.1 here _ (head ks rfl)
        simp [peek, ends] at within
      | cons t ts => exact Nat.succ_le_succ (ih rest further)

theorem peek_append_length (ts more : List Token) (e : Token) : peek (ts ++ e :: more) ts.length = e.toLexeme := by
  simp [peek]

theorem peek_append_of_lt {us vs : List Token} {n : Nat} (less : n < ts.length) :
    peek (ts ++ us) n = peek (ts ++ vs) n := by
  simp [peek, getElem?_append_left less]

namespace Look

/-- What is known where the look succeeds, names and signs by the kinds they may have. -/
def tells : Look → Ahead
  | .ahead n c => [List.replicate n none ++ [some c.within]]
  | .both a b => a.tells.meet b.tells
  | .either a b => a.tells ++ b.tells
  | .star | .funcCall => [[some Class.label.within]]
  | _ => Ahead.anything

/-- Whether the look cannot tell the ends of statements apart. At `level` the parentheses up to
the end balance. -/
def steady (k : Ahead) (level : Bool) : Look → Bool
  | .ahead n c => c.may .eof == c.may .semicolon && k.all (Guess.inside n)
  | .both a b => a.steady k level && b.steady (k.meet a.tells) level
  | .either a b => a.steady k level && b.steady k level
  | .not a => a.steady k level
  | .query | .star | .funcCall => true
  | .outside k => level && !k.ends

variable {l : Look}

theorem holds_tells (success : l.holds ts) : l.tells.Holds ts := by
  have labels {l : Lexeme} (label : l.kind = .ident ∨ l.kind.isKeyword) : l.kind ∈ Class.label.within := by
    simpa [Class.mem_within, Class.may] using label
  have names {l : Lexeme} (name : l.isName) : l.kind ∈ Class.label.within :=
    labels (by simpa [Lexeme.isLabel] using isLabel_of_isName name)
  induction l with
  | ahead n c =>
    refine ⟨_, mem_singleton_self _, fits_replicate ?_⟩
    intro ks same
    cases same
    exact Class.mem_within.2 (Class.may_of_holds success)
  | both a b first second =>
    obtain ⟨left, right⟩ := Bool.and_eq_true_iff.1 success
    exact (first left).meet (second right)
  | either a b first second =>
    obtain left | right := Bool.or_eq_true_iff.1 success
    · obtain ⟨g, member, fits⟩ := first left
      exact ⟨g, mem_append_left _ member, fits⟩
    · obtain ⟨g, member, fits⟩ := second right
      exact ⟨g, mem_append_right _ member, fits⟩
  | star =>
    have name := (Bool.and_eq_true_iff.1 success).1
    refine ⟨_, mem_singleton_self _, ?_, trivial⟩
    intro ks same
    cases same
    exact names name
  | funcCall =>
    have name := (Bool.and_eq_true_iff.1 success).1
    refine ⟨_, mem_singleton_self _, ?_, trivial⟩
    intro ks same
    cases same
    simp only [Bool.or_eq_true, decide_eq_true_eq] at name
    obtain (name | left) | right := name
    · exact names name
    · exact labels (.inr (by rw [left]; rfl))
    · exact labels (.inr (by rw [right]; rfl))
  | not | query | outside => exact Ahead.holds_anything ts

end Look

section

variable {e j : Token} {more : List Token}

theorem leadsToQuery_append (ends : e.kind.ends) (ts : List Token) : leadsToQuery (ts ++ e :: more) = leadsToQuery ts := by
  induction ts with
  | nil => obtain kind | kind := Kind.ends_iff.1 ends <;> simp [leadsToQuery, kind]
  | cons t ts ih => simp only [cons_append, leadsToQuery, ih]

theorem endsInStar_append (ends : e.kind.ends) (ts : List Token) : endsInStar (ts ++ e :: more) = endsInStar ts := by
  fun_induction endsInStar ts with
  | case1 d t ts ih => simp only [cons_append, endsInStar, ih]
  | case2 ts short =>
    match ts with
    | [] => obtain kind | kind := Kind.ends_iff.1 ends <;> cases more <;> simp [endsInStar, kind]
    | [d] => obtain kind | kind := Kind.ends_iff.1 ends <;> simp [endsInStar, kind, Lexeme.isLabel, Kind.isKeyword]
    | d :: t :: ts => exact absurd rfl (short d t ts)

theorem endsInCall_append (ends : e.kind.ends) (ts : List Token) : endsInCall (ts ++ e :: more) = endsInCall ts := by
  fun_induction endsInCall ts with
  | case1 => obtain kind | kind := Kind.ends_iff.1 ends <;> cases more <;> simp [endsInCall, kind]
  | case2 d => obtain kind | kind := Kind.ends_iff.1 ends <;> simp [endsInCall, kind, Lexeme.isLabel, Kind.isKeyword]
  | case3 d t ts stops ih => simp only [cons_append, endsInCall, if_pos stops, ih]
  | case4 d t ts stops => simp only [cons_append, endsInCall, if_neg stops]

/-- No query, star or call is seen past the end of a statement. -/
theorem Look.holds_append {l : Look} (ends : e.kind.ends) (scan : l = .query ∨ l = .star ∨ l = .funcCall)
    (ts : List Token) : l.holds (ts ++ e :: more) = l.holds ts := by
  have nameless : e.isName = false ∧ endLexeme.isName = false := by
    obtain kind | kind := Kind.ends_iff.1 ends <;> simp [Lexeme.isName, kind, endLexeme, Kind.isKeyword]
  have other (w : Keyword) : e.kind ≠ .keyword w := by
    obtain kind | kind := Kind.ends_iff.1 ends <;> simp [kind]
  obtain rfl | rfl | rfl := scan
  · exact leadsToQuery_append ends ts
  · cases ts with
    | nil => simp [holds, peek, nameless]
    | cons t ts => exact congrArg (t.isName && ·) (endsInStar_append ends ts)
  · cases ts with
    | nil => simp [holds, peek, nameless, other, show endLexeme.kind = .eof from rfl]
    | cons t ts => exact congrArg (_ && ·) (endsInCall_append ends ts)

variable (eof : e.kind = .eof) (mark : j.kind = .semicolon)

include eof

include mark

/-- The depth at the end of the tokens is zero. -/
theorem standsOutside_steady (inner : k.ends = false) {depth : Int} (level : depth + net ts = 0) :
    standsOutside k depth (ts ++ [e]) = standsOutside k depth (ts ++ j :: more) := by
  induction ts generalizing depth with
  | nil =>
    have zero : depth = 0 := by simpa using level
    have other : e.kind ≠ k ∧ j.kind ≠ k := by
      constructor <;> rintro rfl
      · simp [eof, Kind.ends] at inner
      · simp [mark, Kind.ends] at inner
    simp [standsOutside, zero, eof, mark, eof ▸ other.1, mark ▸ other.2]
  | cons t ts ih =>
    rw [net_cons] at level
    simp only [cons_append, standsOutside]
    split
    · rfl
    · split
      · rfl
      · next kind =>
        split
        · rfl
        · exact ih (by simpa [kind, Kind.weight] using level)
      · next kind => exact ih (by rw [kind, Kind.weight] at level; omega)
      · next kind => exact ih (by rw [kind, Kind.weight] at level; omega)
      · next opens closes =>
        refine ih ?_
        have zero : t.kind.weight = 0 := by
          unfold Kind.weight
          split
          · contradiction
          · contradiction
          · rfl
        omega

/-- A steady look sees the same in front of the end of the text as in front of a semicolon. -/
theorem Look.holds_eq_of_steady {l : Look} {k : Ahead} {level : Bool} (steady : l.steady k level)
    (known : k.Holds (ts ++ [e])) (balance : level = true → net ts = 0) :
    l.holds (ts ++ [e]) = l.holds (ts ++ j :: more) := by
  induction l generalizing k with
  | ahead n c =>
    obtain ⟨blind, inside⟩ := Bool.and_eq_true_iff.1 steady
    obtain ⟨g, member, fits⟩ := known
    have few := fits.length_le (all_eq_true.1 inside g member) (by rw [eof]; rfl)
    obtain less | same := Nat.lt_or_eq_of_le few
    · exact congrArg c.holds (peek_append_of_lt less)
    · subst same
      simp only [Look.holds, peek_append_length]
      rw [Class.holds_eq_may (by rw [eof]; rfl), Class.holds_eq_may (by rw [mark]; rfl), eof, mark]
      exact eq_of_beq blind
  | both a b first second =>
    obtain ⟨left, right⟩ := Bool.and_eq_true_iff.1 steady
    simp only [Look.holds, ← first left known]
    cases success : a.holds (ts ++ [e]) with
    | false => rfl
    | true => rw [second right (known.meet (holds_tells success))]
  | either a b first second =>
    obtain ⟨left, right⟩ := Bool.and_eq_true_iff.1 steady
    simp only [Look.holds, first left known, second right known]
  | not a ih => simp only [Look.holds, ih steady known]
  | query | star | funcCall =>
    rw [holds_append (by rw [eof]; rfl) (by simp), holds_append (by rw [mark]; rfl) (by simp)]
  | outside kind =>
    obtain ⟨flat, inner⟩ := Bool.and_eq_true_iff.1 steady
    exact standsOutside_steady eof mark (by simpa using inner) (by simpa using balance flat)

end

end Grammar
end TableLineage
