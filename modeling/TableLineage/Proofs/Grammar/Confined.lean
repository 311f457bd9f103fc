import TableLineage.Proofs.Grammar.Depth
import TableLineage.Proofs.Grammar.Steady
import TableLineage.Proofs.Grammar.View

/-! Where the parentheses of what is left of a statement balance, it is read in the same way whether
the text ends after it or a semicolon and more statements follow. -/
namespace TableLineage.Grammar

open List
open Tree (bareAll)

/-! ### Productions that keep inside their statement

A production is read with the number of open parentheses and what is known ahead: wherever it might read or
look past the end of the statement, the parentheses and the tokens known ahead show that the end is not
there yet. -/

/-- The weight that all the kinds have in common, none of which ends a statement. -/
def weight? : List Kind → Option Int
  | [] => some 0
  | k :: ks =>
    if (k :: ks).all fun j => !j.ends && j.weight = k.weight then some k.weight else none

variable {left more ts : List Token} {acc acc' : List Tree} {s s' : State} {base d w : Int} {e j : Token} {k : Ahead}

theorem weight?_spec {ks : List Kind} (common : weight? ks = some w) {k : Kind} (member : k ∈ ks) :
    k.ends = false ∧ k.weight = w := by
  cases ks with
  | nil => cases member
  | cons j ks =>
    obtain ⟨all, ⟨⟩⟩ := Option.ite_none_right_eq_some.1 common
    simpa using all_eq_true.1 all k member

namespace Symbol

/-- The kinds with which a production starts, where its callers see to that. -/
def gate : Symbol → Option (List Kind)
  | .setOperator => some ([.UNION, .EXCEPT, .MINUS, .INTERSECT].map .keyword)
  | .quantifier => some ([.ANY, .ALL, .SOME].map .keyword)
  | .constant => some [.number, .string, .keyword .TRUE, .keyword .FALSE, .keyword .NULL, .keyword .DEFAULT]
  | .createStmt | .havingClause | .qualifyClause | .whenClause | .extractFunc | .positionFunc | .plainFunc
  | .columnRef | .funcCall => some Class.label.within
  | .script => some []
  | _ => none

/-- Whether a production looks for something outside all parentheses. -/
def level : Symbol → Bool
  | .statement | .statementBody | .createStmt => true
  | _ => false

end Symbol

/-- What is known after one of two parts. Where nothing may be ahead, a part has failed. -/
def Ahead.merge : Int × Ahead → Int × Ahead → Option (Int × Ahead)
  | (d, i), (d', j) =>
    if i.isEmpty then some (d', j)
    else if j.isEmpty then some (d, i)
    else if d = d' then some (d, i.join j)
    else none

namespace Part

/-- How many parentheses are open after a part, if `d` are open before it, and what is known
ahead. There is none if the part might see what comes after the statement. -/
def confined : Part Symbol → Bool → Int → Ahead → Option (Int × Ahead)
  | .done, _, d, k => some (d, k)
  | .take, _, d, k => (k.heads.bind weight?).map fun w => (d + w, k.next)
  | .need c _, _, d, k => (weight? c.within).map fun w => (d + w, k.next)
  | .fail _, _, d, _ => some (d, [])
  | .seq a b, level, d, k => (a.confined level d k).bind fun (d, k) => b.confined false d k
  | .branch l a b, level, d, k =>
    if l.steady k level then
      (a.confined level d (k.meet l.tells)).bind fun x => (b.confined level d (l.untold k)).bind (Ahead.merge x)
    else none
  | .loop l a, _, d, _ =>
    if l.steady .anything false && a.eats l.told then
      (a.confined false d l.tells).bind fun (d', k) =>
        if k.isEmpty || d' = d then some (d, .anything) else none
    else none
  | .attempt a b, level, d, k =>
    (a.confined level d k).bind fun x => (b.confined level d k).bind (Ahead.merge x)
  | .swallow _, _, d, _ => if 0 ≤ d then some (d, .anything) else none
  | .call s, level, d, k =>
    if 0 ≤ d && (k.heads = s.gate || k.entails s.gate) && (!s.level || level) then some (d, .anything) else none
  | .node _ a, level, d, k | .group a, level, d, k | .wrap _ a, level, d, k => a.confined level d k

end Part

/-- A script is never inside a statement, and a star that is read up to is known to be there. -/
theorem production_confined (s : Symbol) :
    s.gate = some [] ∨ s = .target ∨ ∃ k, s.production.confined s.level 0 [[s.gate]] = some (0, k) := by
  have checked : s.gate = some [] ∨ s = .target ∨
      (s.production.confined s.level 0 [[s.gate]]).map Prod.fst = some 0 := by
    cases s <;> decide +kernel
  refine checked.imp_right (Or.imp_right fun found => ?_)
  obtain ⟨⟨d, k⟩, found, rfl⟩ := Option.map_eq_some_iff.1 found
  exact ⟨k, found⟩

/-- Where a target is a star with names in front of it. -/
def qualifiedStar : Look := .either (.is .star) .star

def starTarget : Part Symbol := .node .targetStar (.seq (.loop (.not (.is .star)) .take) .take)

theorem production_target : ∃ label k, Symbol.production .target = .branch qualifiedStar starTarget label ∧
    label.confined false 0 .anything = some (0, k) := by
  refine ⟨_, .anything, rfl, ?_⟩
  decide +kernel

/-! ### Parallel runs -/

/-- Two runs over the same tokens `left` of a statement, in front of the end of the text and in
front of a semicolon. Of `base`, the balance where a production was entered, `d` is made up for
by the parentheses opened since. -/
structure Parallel (e j : Token) (more : List Token) (base d : Int) (k : Ahead) (left : List Token)
    (x y : List Tree × State) : Prop where
  trees : bareAll x.1 = bareAll y.1
  alone : x.2.rest = left ++ [e]
  joined : y.2.rest = left ++ j :: more
  inside : ∀ t ∈ left, t.kind ≠ .eof
  known : k.Holds x.2.rest
  balance : net left + d = base

namespace Parallel

variable {p q : List Tree × State}

theorem rests (parallel : Parallel e j more base d k left (acc, s) (acc', s')) :
    s.rest = left ++ [e] ∧ s'.rest = left ++ j :: more :=
  ⟨parallel.alone, parallel.joined⟩

theorem forget (parallel : Parallel e j more base d k left p q) : Parallel e j more base d .anything left p q :=
  { parallel with known := Ahead.holds_anything _ }

theorem not_isEmpty (parallel : Parallel e j more base d k left p q) : ¬ k.isEmpty := by
  intro none
  obtain ⟨g, member, _⟩ := parallel.known
  rw [List.isEmpty_iff.1 none] at member
  cases member

/-- What is known after one of two parts is known after both. -/
theorem merge {x y z : Int × Ahead} (merged : Ahead.merge x y = some z)
    (one : Parallel e j more base x.1 x.2 left p q ∨ Parallel e j more base y.1 y.2 left p q) :
    Parallel e j more base z.1 z.2 left p q := by
  obtain ⟨d, i⟩ := x
  obtain ⟨d', i'⟩ := y
  simp only [Ahead.merge] at merged
  split at merged
  · next none =>
    cases merged
    exact one.resolve_left fun first => first.not_isEmpty none
  · split at merged
    · next none =>
      cases merged
      exact one.resolve_right fun second => second.not_isEmpty none
    · obtain ⟨rfl, ⟨⟩⟩ := Option.ite_none_right_eq_some.1 merged
      obtain first | second := one
      · exact { first with known := .join (.inl first.known) }
      · exact { second with known := .join (.inr second.known) }

theorem sees (eof : e.kind = .eof) (mark : j.kind = .semicolon) {l : Look} {level : Bool} (steady : l.steady k level)
    (parallel : Parallel e j more base d k left p q) (flat : level = true → net left = 0) :
    l.holds p.2.rest = l.holds q.2.rest := by
  have known := parallel.known
  rw [parallel.alone] at known
  rw [parallel.alone, parallel.joined]
  exact Look.holds_eq_of_steady eof mark steady known flat

end Parallel

namespace Step

/-- From parallel states both steps fail, or both come to parallel states. -/
def Confined (e j : Token) (more : List Token) (a a' : Step) (level : Bool) (d : Int) (k : Ahead) (d' : Int)
    (k' : Ahead) : Prop :=
  ∀ base left acc acc' s s', Parallel e j more base d k left (acc, s) (acc', s') → base ≤ 0 →
    (level = true → net left = 0) →
    Agree (fun x y => ∃ left', Parallel e j more base d' k' left' x y) (a acc s) (a' acc' s')

theorem take_of_rest {t : Token} (rest : s.rest = t :: ts) (some : ts ≠ []) : take acc s =
      if t.kind = .illegal then s.fail .illegal else .ok (acc ++ [.leaf t], ⟨ts, s.read + 1, t⟩) := by
  unfold take
  rw [rest]
  cases ts with
  | nil => exact absurd rfl some
  | cons => rfl

namespace Confined

variable {a a' b b' : Step} {level : Bool} {d' d'' : Int} {k' k'' : Ahead}

theorem done : Confined e j more (fun acc s => .ok (acc, s)) (fun acc s => .ok (acc, s)) level d k d k :=
  fun _ left _ _ _ _ parallel _ _ => .ok ⟨left, parallel⟩

theorem fail {fault : Fault} :
    Confined e j more (fun _ s => s.fail fault) (fun _ s => s.fail fault) level d k d' k' :=
  fun _ _ _ _ _ _ _ _ _ => .error

/-- A token of the statement is read by both. -/
theorem take_cons {t : Token} (parallel : Parallel e j more base d k (t :: left) (acc, s) (acc', s')) :
    Agree (fun x y => Parallel e j more base (d + t.kind.weight) k.next left x y) (Step.take acc s)
      (Step.take acc' s') := by
  have rest : s.rest = t :: (left ++ [e]) := parallel.alone
  have rest' : s'.rest = t :: (left ++ j :: more) := parallel.joined
  rw [take_of_rest rest (by simp), take_of_rest rest' (by simp)]
  split
  · exact .error
  · have trees : bareAll acc = bareAll acc' := parallel.trees
    have known : k.Holds (t :: (left ++ [e])) := rest ▸ parallel.known
    have balance : net (t :: left) + d = base := parallel.balance
    rw [net_cons] at balance
    exact .ok ⟨by simp [bareAll, trees], rfl, rfl, fun u member => parallel.inside u (mem_cons_of_mem t member),
      known.next, by omega⟩

theorem attempt {x y z : Int × Ahead} (first : Confined e j more a a' level d k x.1 x.2)
    (second : Confined e j more b b' level d k y.1 y.2) (merged : Ahead.merge x y = some z) :
    Confined e j more (fun acc s => match a acc s with | .ok r => .ok r | .error _ => b acc s)
      (fun acc s => match a' acc s with | .ok r => .ok r | .error _ => b' acc s) level d k z.1 z.2 := by
  intro base left acc acc' s s' parallel below flat
  dsimp only
  generalize a acc s = p, a' acc' s' = q, first base left acc acc' s s' parallel below flat = both
  cases both with
  | error =>
    exact (second base left acc acc' s s' parallel below flat).imp fun _ _ ⟨left, related⟩ =>
      ⟨left, .merge merged (.inr related)⟩
  | ok related =>
    obtain ⟨left, related⟩ := related
    exact .ok ⟨left, .merge merged (.inl related)⟩

theorem andThen (first : Confined e j more a a' level d k d' k')
    (second : Confined e j more b b' false d' k' d'' k'') :
    Confined e j more (a.andThen b) (a'.andThen b') level d k d'' k'' := by
  intro base left acc acc' s s' parallel below flat
  refine (first base left acc acc' s s' parallel below flat).andThen fun x y ⟨left, related⟩ => ?_
  exact second base left _ _ _ _ related below (fun wrong => by cases wrong)

/-- A production that is entered counts the parentheses afresh. -/
theorem enter {s : Symbol} (inner : Confined e j more a a' s.level 0 [[s.gate]] 0 .anything) (closes : 0 ≤ d)
    (opens : k.heads = s.gate ∨ k.entails s.gate) (flat : s.level = false ∨ level = true) :
    Confined e j more a a' level d k d .anything := by
  intro base left acc acc' st st' parallel below balanced
  have balance : net left + d = base := parallel.balance
  have known : Ahead.Holds [[s.gate]] st.rest := by
    refine ⟨_, mem_singleton_self _, ?_, trivial⟩
    obtain same | entailed := opens
    · intro ks gate
      exact parallel.known.mem_heads (same.trans gate)
    · exact parallel.known.of_entails entailed
  have ran := inner (net left) left acc acc' st st' { parallel with known, balance := by omega } (by omega) fun high =>
    balanced (flat.resolve_left (by simp [high]))
  refine ran.imp fun x y ⟨left', related⟩ => ⟨left', { related with balance := ?_ }⟩
  have same := related.balance
  omega

theorem depth_weight {stop : Option Kind} {depth : Nat} {t : Lexeme} (goes : ¬stopsAt stop depth t) :
    d + depth + t.kind.weight =
      d + ↑(if t.kind = .lparen then depth + 1 else if t.kind = .rparen then depth - 1 else depth) := by
  split
  · next opens =>
    rw [opens, Kind.weight]
    omega
  · split
    · next closes =>
      have some : depth ≠ 0 := by
        rintro rfl
        simp [stopsAt, closes] at goes
      rw [closes, Kind.weight]
      omega
    · next opens closes =>
      have zero : t.kind.weight = 0 := by
        unfold Kind.weight
        split <;> first | contradiction | rfl
      omega

section

variable (eof : e.kind = .eof) (mark : j.kind = .semicolon)

include eof

theorem take {ks : List Kind} (known : k.heads = some ks) (common : weight? ks = some w) :
    Confined e j more Step.take Step.take level d k (d + w) k.next := by
  intro base left acc acc' s s' parallel _ _
  have kind : (peek s.rest 0).kind ∈ ks := parallel.known.mem_heads known
  rw [show s.rest = left ++ [e] from parallel.alone] at kind
  cases left with
  | nil =>
    have inner := (weight?_spec common kind).1
    simp [peek, eof, Kind.ends] at inner
  | cons t left =>
    have weight : t.kind.weight = w := (weight?_spec common kind).2
    rw [← weight]
    exact (take_cons parallel).imp fun _ _ related => ⟨left, related⟩

include mark

theorem need {c : Class} {fault : Fault} (common : weight? c.within = some w) :
    Confined e j more (fun acc s => if c.holds s.current.toLexeme then Step.take acc s else s.fail fault)
      (fun acc s => if c.holds s.current.toLexeme then Step.take acc s else s.fail fault) level d k (d + w) k.next := by
  intro base left acc acc' s s' parallel _ _
  obtain ⟨alone, joined⟩ := parallel.rests
  have outside (t : Token) (ends : t.kind.ends) : c.holds t.toLexeme = false := by
    refine Bool.eq_false_iff.2 fun holds => ?_
    have inner := (weight?_spec common (Class.mem_within.2 (Class.may_of_holds holds))).1
    rw [ends] at inner
    cases inner
  cases left with
  | nil =>
    simp only [State.current, alone, joined, nil_append, head?_cons, Option.getD_some,
      outside e (by rw [eof]; rfl), outside j (by rw [mark]; rfl)]
    exact .error
  | cons t left =>
    simp only [State.current, alone, joined, cons_append, head?_cons, Option.getD_some]
    split
    · next holds =>
      rw [← (weight?_spec common (Class.mem_within.2 (Class.may_of_holds holds))).2]
      exact (take_cons parallel).imp fun _ _ related => ⟨left, related⟩
    · exact .error

theorem branch {l : Look} {x y z : Int × Ahead} (steady : l.steady k level)
    (first : Confined e j more a a' level d (k.meet l.tells) x.1 x.2)
    (second : Confined e j more b b' level d (l.untold k) y.1 y.2) (merged : Ahead.merge x y = some z) :
    Confined e j more (fun acc s => if l.holds s.rest then a acc s else b acc s)
      (fun acc s => if l.holds s.rest then a' acc s else b' acc s) level d k z.1 z.2 := by
  intro base left acc acc' s s' parallel below flat
  have same : l.holds s.rest = l.holds s'.rest := parallel.sees eof mark steady flat
  dsimp only
  rw [← same]
  split
  · next success =>
    have known := parallel.known.meet (Look.holds_tells success)
    exact (first base left acc acc' s s' { parallel with known } below flat).imp fun _ _ ⟨left, related⟩ =>
      ⟨left, .merge merged (.inl related)⟩
  · next failure =>
    have known := Look.holds_untold parallel.known (Bool.eq_false_iff.2 failure)
    exact (second base left acc acc' s s' { parallel with known } below flat).imp fun _ _ ⟨left, related⟩ =>
      ⟨left, .merge merged (.inr related)⟩

/-- Each round reads a token, so the tokens of the statement bound the rounds of both loops. -/
theorem loop {l : Look} (steady : l.steady .anything false) (eats : a.Eats l.told)
    (each : Confined e j more a a' false d l.tells d' k') (again : k'.isEmpty || d' = d) :
    Confined e j more (fun acc s => Step.loop l a s.rest.length acc s)
      (fun acc s => Step.loop l a' s.rest.length acc s) level d k d .anything := by
  have rounds (n m : Nat) (base : Int) (left : List Token) (acc acc' : List Tree) (s s' : State)
      (parallel : Parallel e j more base d .anything left (acc, s) (acc', s')) (below : base ≤ 0)
      (few : left.length < n) (few' : left.length < m) :
      Agree (fun x y => ∃ left', Parallel e j more base d .anything left' x y) (Step.loop l a n acc s)
        (Step.loop l a' m acc' s') := by
    induction n generalizing m left acc acc' s s' with
    | zero => cases few
    | succ n ih =>
      cases m with
      | zero => cases few'
      | succ m =>
        obtain ⟨alone, joined⟩ := parallel.rests
        have same : l.holds s.rest = l.holds s'.rest := parallel.sees eof mark steady (fun wrong => by cases wrong)
        rw [Step.loop, Step.loop, ← same]
        split
        · next success =>
          have shorter := eats acc s
          unfold Step.andThen
          generalize a acc s = p, a' acc' s' = q,
            each base left acc acc' s s' { parallel with known := Look.holds_tells success } below
              (fun wrong => by cases wrong) = both at shorter
          cases both with
          | error => exact .error
          | @ok x y related =>
            obtain ⟨left', related⟩ := related
            have less := shorter x.1 x.2 (Look.holds_told success) rfl
            rw [alone, related.alone, length_append, length_append] at less
            obtain rfl : d' = d := by simpa using (Bool.or_eq_true_iff.1 again).resolve_left related.not_isEmpty
            exact ih m left' _ _ _ _ related.forget (by omega) (by omega)
        · exact .ok ⟨left, parallel⟩
  intro base left acc acc' s s' parallel below _
  obtain ⟨alone, joined⟩ := parallel.rests
  exact rounds _ _ base left acc acc' s s' parallel.forget below (by simp [alone]) (by simp [joined])

/-- Parentheses that are still open are closed before the statement ends. -/
theorem swallow {stop : Option Kind} (closes : 0 ≤ d) :
    Confined e j more (fun acc s => Step.swallow stop s.rest.length 0 acc s)
      (fun acc s => Step.swallow stop s.rest.length 0 acc s) level d k d .anything := by
  have tokens (n m depth : Nat) (base : Int) (left : List Token) (acc acc' : List Tree) (s s' : State)
      (parallel : Parallel e j more base (d + depth) .anything left (acc, s) (acc', s')) (below : base ≤ 0)
      (few : left.length < n) (few' : left.length < m) :
      Agree (fun x y => ∃ left', Parallel e j more base d .anything left' x y) (Step.swallow stop n depth acc s)
        (Step.swallow stop m depth acc' s') := by
    induction n generalizing m depth left acc acc' s s' with
    | zero => cases few
    | succ n ih =>
      cases m with
      | zero => cases few'
      | succ m =>
        obtain ⟨alone, joined⟩ := parallel.rests
        have balance : net left + (d + depth) = base := parallel.balance
        cases left with
        | nil =>
          obtain rfl : depth = 0 := by
            rw [net_nil] at balance
            omega
          have here : s.current = e := by simp [State.current, alone]
          have here' : s'.current = j := by simp [State.current, joined]
          simp only [Step.swallow, here, here', stopsAt, eof, mark]
          exact .ok ⟨[], by simpa using parallel⟩
        | cons t left =>
          have here : s.current = t := by simp [State.current, alone]
          have here' : s'.current = t := by simp [State.current, joined]
          have inner : t.kind ≠ .eof := parallel.inside t mem_cons_self
          by_cases stops : stopsAt stop depth t.toLexeme
          · simp only [Step.swallow, here, here', if_pos stops]
            obtain rfl : depth = 0 := by
              simp only [stopsAt, inner, decide_false, Bool.false_or, Bool.and_eq_true, decide_eq_true_eq] at stops
              exact stops.1
            exact .ok ⟨t :: left, by simpa using parallel⟩
          · simp only [Step.swallow, here, here', if_neg stops]
            refine (take_cons parallel).andThen fun x y related => ih m _ left _ _ _ _ ?_ ?_ ?_
            · rw [depth_weight stops] at related
              exact related.forget
            all_goals simp only [length_cons] at few few'; omega
  intro base left acc acc' s s' parallel below _
  obtain ⟨alone, joined⟩ := parallel.rests
  exact tokens _ _ 0 base left acc acc' s s' (by simpa using parallel.forget) below (by simp [alone]) (by simp [joined])

end

end Confined
end Step

/-- What a label is not. -/
theorem not_star_of_label {l : Lexeme} (label : l.isLabel) :
    l.kind ≠ .star ∧ l.kind ≠ .eof ∧ l.kind.weight = 0 := by
  have among : l.kind = .ident ∨ l.kind.isKeyword := by simpa [Lexeme.isLabel] using label
  cases kind : l.kind <;> simp_all [Kind.isKeyword, Kind.weight]

theorem exists_star_of_endsInStar (stars : endsInStar ts) : ∃ front c back, ts = front ++ c :: back ∧ c.kind = .star ∧
    ∀ t ∈ front, t.kind ≠ .star ∧ t.kind ≠ .eof ∧ t.kind.weight = 0 := by
  fun_induction endsInStar ts with
  | case1 d t ts ih =>
    simp only [Bool.and_eq_true, Bool.or_eq_true, decide_eq_true_eq] at stars
    obtain ⟨dot, star | ⟨label, rest⟩⟩ := stars
    · exact ⟨[d], t, ts, rfl, star, by simp [dot, Kind.weight]⟩
    · obtain ⟨front, c, back, same, star, others⟩ := ih rest
      refine ⟨d :: t :: front, c, back, by rw [same]; rfl, star, ?_⟩
      simp only [forall_mem_cons, dot]
      exact ⟨by decide, not_star_of_label label, others⟩
  | case2 => cases stars

theorem exists_star (stars : qualifiedStar.holds ts) : ∃ front c back, ts = front ++ c :: back ∧ c.kind = .star ∧
    ∀ t ∈ front, t.kind ≠ .star ∧ t.kind ≠ .eof ∧ t.kind.weight = 0 := by
  cases ts with
  | nil => cases stars
  | cons t ts =>
    obtain star | qualified := Bool.or_eq_true_iff.1 stars
    · exact ⟨[], t, ts, rfl, is_iff.1 star, by simp⟩
    · obtain ⟨name, rest⟩ := Bool.and_eq_true_iff.1 qualified
      obtain ⟨front, c, back, same, star, others⟩ := exists_star_of_endsInStar rest
      refine ⟨t :: front, c, back, by rw [cons_append, ← same]; rfl, star, forall_mem_cons.2 ⟨?_, others⟩⟩
      exact not_star_of_label (isLabel_of_isName name)

/-- What stands in front of a star is read up to it. -/
theorem Parallel.up_to_star {front back : List Token} {c : Token} (star : c.kind = .star)
    (others : ∀ t ∈ front, t.kind ≠ .star ∧ t.kind ≠ .eof ∧ t.kind.weight = 0) {n m : Nat} (few : front.length < n)
    (few' : front.length < m) (parallel : Parallel e j more base d .anything (front ++ c :: back) (acc, s) (acc', s')) :
    Agree (fun x y => Parallel e j more base d .anything (c :: back) x y)
      (Step.loop (.not (.is .star)) Step.take n acc s) (Step.loop (.not (.is .star)) Step.take m acc' s') := by
  obtain ⟨n, rfl⟩ := Nat.exists_eq_add_one_of_ne_zero (Nat.ne_zero_of_lt few)
  obtain ⟨m, rfl⟩ := Nat.exists_eq_add_one_of_ne_zero (Nat.ne_zero_of_lt few')
  obtain ⟨alone, joined⟩ := parallel.rests
  induction front generalizing n m acc acc' s s' with
  | nil =>
    have stop (ts : List Token) : (Look.not (.is .star)).holds (c :: ts) = false := by
      simp [Look.holds, Look.is, Class.holds, peek, star]
    rw [Step.loop, Step.loop, alone, joined]
    simp only [nil_append, cons_append, stop]
    exact .ok parallel
  | cons t front ih =>
    obtain ⟨other, -, weightless⟩ := others t mem_cons_self
    have goes (ts : List Token) : (Look.not (.is .star)).holds (t :: ts) = true := by
      simp [Look.holds, Look.is, Class.holds, peek, other]
    rw [Step.loop, Step.loop, alone, joined]
    simp only [cons_append, goes, if_true]
    refine (Step.Confined.take_cons parallel).andThen fun x y related => ?_
    rw [weightless, Int.add_zero] at related
    simp only [length_cons] at few few'
    obtain ⟨n, rfl⟩ := Nat.exists_eq_add_one_of_ne_zero (show n ≠ 0 by omega)
    obtain ⟨m, rfl⟩ := Nat.exists_eq_add_one_of_ne_zero (show m ≠ 0 by omega)
    exact ih (fun u member => others u (mem_cons_of_mem t member)) related n (by omega) m (by omega)
      related.alone related.joined

namespace Part

variable {source source' : List Char} {call call' : Symbol → Step} (eof : e.kind = .eof) (mark : j.kind = .semicolon)

include eof mark

/-- Parts are as confined as their productions are. -/
theorem run_confined (eaten : ∀ (a : Part Symbol) {k : Ahead}, a.eats k → (a.run source call).Eats k)
    (calls : ∀ s, Step.Confined e j more (call s) (call' s) s.level 0 [[s.gate]] 0 .anything) (p : Part Symbol)
    {level : Bool} {d' : Int} {k' : Ahead} (found : p.confined level d k = some (d', k')) :
    Step.Confined e j more (p.run source call) (p.run source' call') level d k d' k' := by
  induction p generalizing level d d' k k' with
  | done =>
    cases found
    exact .done
  | take =>
    obtain ⟨w, common, same⟩ := Option.map_eq_some_iff.1 found
    obtain ⟨ks, known, common⟩ := Option.bind_eq_some_iff.1 common
    cases same
    exact .take eof known common
  | need c fault =>
    obtain ⟨w, common, same⟩ := Option.map_eq_some_iff.1 found
    cases same
    exact .need eof mark common
  | fail => exact .fail
  | seq a b first second =>
    obtain ⟨⟨_, _⟩, one, two⟩ := Option.bind_eq_some_iff.1 found
    exact (first one).andThen (second two)
  | branch l a b first second =>
    obtain ⟨steady, found⟩ := Option.ite_none_right_eq_some.1 found
    obtain ⟨⟨_, _⟩, one, rest⟩ := Option.bind_eq_some_iff.1 found
    obtain ⟨⟨_, _⟩, two, merged⟩ := Option.bind_eq_some_iff.1 rest
    exact .branch eof mark steady (first one) (second two) merged
  | loop l a ih =>
    obtain ⟨checked, found⟩ := Option.ite_none_right_eq_some.1 found
    obtain ⟨steady, eats⟩ := Bool.and_eq_true_iff.1 checked
    obtain ⟨⟨_, _⟩, one, rest⟩ := Option.bind_eq_some_iff.1 found
    obtain ⟨again, ⟨⟩⟩ := Option.ite_none_right_eq_some.1 rest
    exact .loop eof mark steady (eaten a eats) (ih one) again
  | attempt a b first second =>
    obtain ⟨⟨_, _⟩, one, rest⟩ := Option.bind_eq_some_iff.1 found
    obtain ⟨⟨_, _⟩, two, merged⟩ := Option.bind_eq_some_iff.1 rest
    exact .attempt (first one) (second two) merged
  | swallow stop =>
    obtain ⟨closes, ⟨⟩⟩ := Option.ite_none_right_eq_some.1 found
    exact .swallow eof mark closes
  | call s =>
    obtain ⟨checked, ⟨⟩⟩ := Option.ite_none_right_eq_some.1 found
    obtain ⟨checked, flat⟩ := Bool.and_eq_true_iff.1 checked
    obtain ⟨closes, opens⟩ := Bool.and_eq_true_iff.1 checked
    exact .enter (calls s) (by simpa using closes) (by simpa using opens) (by simpa using flat)
  | node r a ih =>
    intro base left acc acc' s s' parallel below flat
    have trees : bareAll acc = bareAll acc' := parallel.trees
    rw [run_node, run_node]
    exact (ih found base left [] [] s s' { parallel with trees := rfl } below flat).map fun x y ⟨left, related⟩ =>
      ⟨left, { related with trees := by simp [bareAll, trees, related.trees] }⟩
  | group a ih =>
    intro base left acc acc' s s' parallel below flat
    have trees : bareAll acc = bareAll acc' := parallel.trees
    rw [run_group, run_group]
    exact (ih found base left [] [] s s' { parallel with trees := rfl } below flat).map fun x y ⟨left, related⟩ =>
      ⟨left, { related with trees := by simp [trees, related.trees] }⟩
  | wrap r a ih =>
    intro base left acc acc' s s' parallel below flat
    rw [run_wrap, run_wrap]
    exact (ih found base left acc acc' s s' parallel below flat).map fun x y ⟨left, related⟩ =>
      ⟨left, { related with trees := by simp [bareAll, related.trees] }⟩

end Part

section

variable (source source' : List Char) (eof : e.kind = .eof) (mark : j.kind = .semicolon)

include eof

/-- A qualified star is read up to the star. -/
theorem star_confined {call call' : Symbol → Step} (stars : qualifiedStar.holds s.rest)
    (parallel : Parallel e j more base d .anything left (acc, s) (acc', s')) :
    Agree (fun x y => ∃ left', Parallel e j more base d .anything left' x y) (starTarget.run source call acc s)
      (starTarget.run source' call' acc' s') := by
  obtain ⟨alone, joined⟩ := parallel.rests
  rw [alone] at stars
  obtain ⟨front, c, behind, same, star, others⟩ := exists_star stars
  obtain ⟨back, rfl⟩ : ∃ back, left = front ++ c :: back := by
    obtain rfl | ⟨back, last, rfl⟩ := eq_nil_or_concat behind
    · cases append_inj_right' same rfl
      simp [star] at eof
    · exact ⟨back, append_inj_left' (same.trans (by simp : _ = (front ++ c :: back) ++ [last])) rfl⟩
  have few : front.length < s.rest.length := by
    simp only [alone, length_append, length_cons]
    omega
  have few' : front.length < s'.rest.length := by
    simp only [joined, length_append, length_cons]
    omega
  have inner : Agree (fun x y => Parallel e j more base d .anything back x y)
      ((Part.seq (.loop (.not (.is .star)) .take) .take).run source call [] s)
      ((Part.seq (.loop (.not (.is .star)) .take) .take).run source' call' [] s') := by
    have empty : Parallel e j more base d .anything (front ++ c :: back) ([], s) ([], s') :=
      { parallel with trees := rfl }
    refine (empty.up_to_star star others few few').andThen fun x y related => ?_
    refine (Step.Confined.take_cons related).imp fun x y read => ?_
    rw [star, show Kind.star.weight = 0 from rfl, Int.add_zero] at read
    exact read
  have trees : bareAll acc = bareAll acc' := parallel.trees
  rw [starTarget, Part.run_node, Part.run_node]
  exact inner.map fun x y related => ⟨back, { related with trees := by simp [bareAll, trees, related.trees] }⟩

include mark

/-- Productions stay inside their statement, however deep they go. -/
theorem Symbol.run_confined (depth : Nat) (s : Symbol) :
    Step.Confined e j more (Symbol.run source depth s) (Symbol.run source' depth s) s.level 0 [[s.gate]] 0 .anything := by
  induction depth generalizing s with
  | zero => exact .fail
  | succ depth ih =>
    have parts {p : Part Symbol} {level : Bool} {k k' : Ahead} (found : p.confined level 0 k = some (0, k')) :
        Step.Confined e j more (p.run source (Symbol.run source depth)) (p.run source' (Symbol.run source' depth)) level
          0 k 0 .anything := by
      intro base left acc acc' st st' parallel below flat
      have ran : Step.Confined e j more (p.run source _) (p.run source' _) level 0 k 0 k' :=
        Part.run_confined eof mark Part.run_eats ih p found
      exact (ran base left acc acc' st st' parallel below flat).imp fun x y ⟨left', related⟩ => ⟨left', related.forget⟩
    obtain never | rfl | ⟨k, found⟩ := production_confined s
    · rintro base left acc acc' st st' parallel - -
      obtain ⟨g, member, fits⟩ := parallel.known
      rw [mem_singleton.1 member, never] at fits
      cases fits.1 [] rfl
    · obtain ⟨label, k, same, found⟩ := production_target
      intro base left acc acc' st st' parallel below flat
      have parallel := parallel.forget
      have steady : qualifiedStar.steady .anything false := rfl
      have sees : qualifiedStar.holds st.rest = qualifiedStar.holds st'.rest :=
        parallel.sees eof mark steady (fun wrong => by cases wrong)
      rw [Symbol.run, Symbol.run, same]
      change Agree _
        (if qualifiedStar.holds st.rest then starTarget.run source _ acc st else label.run source _ acc st)
        (if qualifiedStar.holds st'.rest then starTarget.run source' _ acc' st' else label.run source' _ acc' st')
      rw [← sees]
      split
      · next stars => exact star_confined source source' eof stars parallel
      · exact parts found base left acc acc' st st' parallel below flat
    · exact parts found

end

end TableLineage.Grammar
