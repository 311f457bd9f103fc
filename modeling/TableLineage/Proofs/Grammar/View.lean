import TableLineage.Proofs.Grammar.Frontier

/-! Trees under a view. The grammar asks for the classes of lexemes only, so two runs over tokens
that look the same under a view that keeps the classes go on in lockstep: both fail, or both build
trees that look the same. Without places, tokens with the same lexemes look the same. -/
namespace TableLineage

open List

/-- Both computations fail, or both give results that are related. -/
inductive Agree {ε δ α β : Type} (R : α → β → Prop) : Except ε α → Except δ β → Prop
  | ok {a : α} {b : β} (related : R a b) : Agree R (.ok a) (.ok b)
  | error {e : ε} {e' : δ} : Agree R (.error e) (.error e')

theorem Agree.imp {ε δ α β : Type} {R S : α → β → Prop} {x : Except ε α} {y : Except δ β} (agree : Agree R x y)
    (weaker : ∀ a b, R a b → S a b) : Agree S x y := by
  cases agree with
  | error => exact .error
  | ok related => exact .ok (weaker _ _ related)

theorem Agree.map {ε δ α β γ κ : Type} {R : α → β → Prop} {S : γ → κ → Prop} {x : Except ε α} {y : Except δ β}
    {f : α → γ} {g : β → κ} (agree : Agree R x y) (step : ∀ a b, R a b → S (f a) (g b)) :
    Agree S (x.map f) (y.map g) := by
  cases agree with
  | error => exact .error
  | ok related => exact .ok (step _ _ related)

theorem Agree.andThen {R S : List Tree × Grammar.State → List Tree × Grammar.State → Prop} {a a' b b' : Grammar.Step}
    {acc acc' : List Tree} {s s' : Grammar.State} (first : Agree R (a acc s) (a' acc' s'))
    (second : ∀ x y, R x y → Agree S (b x.1 x.2) (b' y.1 y.2)) :
    Agree S (a.andThen b acc s) (a'.andThen b' acc' s') := by
  unfold Grammar.Step.andThen
  generalize a acc s = x, a' acc' s' = y at first
  cases first with
  | error => exact .error
  | ok related => exact second _ _ related

theorem Agree.exists_ok {ε δ α β : Type} {R : α → β → Prop} {x : Except ε α} {y : Except δ β} {a : α}
    (agree : Agree R x y) (ok : x = .ok a) : ∃ b, y = .ok b ∧ R a b := by
  cases agree with
  | error => cases ok
  | ok related =>
    cases ok
    exact ⟨_, rfl, related⟩

namespace Grammar

/-- A way to look at tokens that keeps what the grammar asks of them. -/
structure View where
  see : Token → Token
  none : see .none = .none
  holds (c : Class) (t : Token) : c.holds (see t).toLexeme = c.holds t.toLexeme

namespace View

variable (v : View) {t u : Token}

theorem kind (t : Token) : (v.see t).kind = t.kind := by
  simpa [Class.holds] using v.holds (.kind t.kind) t

theorem holds_eq (same : v.see t = v.see u) (c : Class) : c.holds t.toLexeme = c.holds u.toLexeme := by
  rw [← v.holds, same, v.holds]

theorem kind_eq (same : v.see t = v.see u) : t.kind = u.kind := by
  rw [← v.kind, same, v.kind]

/-- Tokens without their places. -/
def placeless : View := ⟨fun t => ⟨t.toLexeme, .none⟩, rfl, fun _ _ => rfl⟩

end View
end Grammar

namespace Tree

variable (v : Grammar.View)

mutual

/-- The rules, the children and the terminals of a tree, these under the view. -/
def seen : Tree → Tree
  | .leaf t => .leaf (v.see t)
  | .node r _ _ _ cs => .node r .none .none "" (seenAll cs)

def seenAll : List Tree → List Tree
  | [] => []
  | t :: ts => t.seen :: seenAll ts

end

theorem seenAll_eq_map (ts : List Tree) : seenAll v ts = ts.map (seen v) := by
  induction ts with
  | nil => rfl
  | cons t ts ih => rw [seenAll, ih, map_cons]

@[simp] theorem seenAll_append (ts us : List Tree) : seenAll v (ts ++ us) = seenAll v ts ++ seenAll v us := by
  simp [seenAll_eq_map]

mutual

theorem leaves_seen : (t : Tree) → (t.seen v).leaves = t.leaves.map v.see
  | .leaf _ => by simp [seen, leaves]
  | .node _ _ _ _ cs => by
    rw [seen, leaves, leaves]
    exact leavesAll_seenAll cs

theorem leavesAll_seenAll : (ts : List Tree) → leavesAll (seenAll v ts) = (leavesAll ts).map v.see
  | [] => rfl
  | t :: ts => by rw [seenAll, leavesAll, leavesAll, leaves_seen t, leavesAll_seenAll ts, map_append]

end

mutual

/-- The tree without places: its rules, its children and its terminals are left. -/
def bare : Tree → Tree
  | .leaf t => .leaf ⟨t.toLexeme, .none⟩
  | .node r _ _ _ cs => .node r .none .none "" (bareAll cs)

def bareAll : List Tree → List Tree
  | [] => []
  | t :: ts => t.bare :: bareAll ts

end

mutual

theorem seen_placeless : (t : Tree) → t.seen .placeless = t.bare
  | .leaf _ => rfl
  | .node _ _ _ _ cs => by rw [seen, bare, seenAll_placeless cs]

theorem seenAll_placeless : (ts : List Tree) → seenAll .placeless ts = bareAll ts
  | [] => rfl
  | t :: ts => by rw [seenAll, bareAll, seen_placeless t, seenAll_placeless ts]

end

@[simp] theorem bareAll_append (ts us : List Tree) : bareAll (ts ++ us) = bareAll ts ++ bareAll us := by
  simp [← seenAll_placeless]

theorem leaves_bare (t : Tree) : t.bare.leaves = t.leaves.map fun u => ⟨u.toLexeme, .none⟩ := by
  rw [← seen_placeless, leaves_seen]
  rfl

theorem eq_singleton_of_bareAll {t : Tree} {us : List Tree} (same : bareAll [t] = bareAll us) :
    ∃ u, us = [u] ∧ t.bare = u.bare := by
  match us, same with
  | [u], same => exact ⟨u, rfl, (List.cons.inj same).1⟩
  | _ :: _ :: _, same => cases (List.cons.inj same).2

end Tree

namespace Grammar

open Tree (seenAll)

variable {v : View}

/-- The tokens look the same one by one. -/
inductive LookSame (v : View) : List Token → List Token → Prop
  | nil : LookSame v [] []
  | cons {t u : Token} {ts us : List Token} (head : v.see t = v.see u) (tail : LookSame v ts us) :
      LookSame v (t :: ts) (u :: us)

namespace LookSame

variable {ts us : List Token}

theorem of_map_eq (same : ts.map v.see = us.map v.see) : LookSame v ts us := by
  induction ts generalizing us with
  | nil =>
    rw [map_eq_nil_iff.1 same.symm]
    exact .nil
  | cons t ts ih =>
    cases us with
    | nil => cases same
    | cons u us =>
      obtain ⟨head, tail⟩ := List.cons.inj same
      exact .cons head (ih tail)

theorem length_eq (same : LookSame v ts us) : ts.length = us.length := by
  induction same with
  | nil => rfl
  | cons _ _ ih => rw [length_cons, length_cons, ih]

theorem drop_one (same : LookSame v ts us) : LookSame v ts.tail us.tail := by
  cases same with
  | nil => exact .nil
  | cons _ tail => exact tail

theorem holds_peek (same : LookSame v ts us) (n : Nat) (c : Class) : c.holds (peek ts n) = c.holds (peek us n) := by
  induction same generalizing n with
  | nil => rfl
  | cons head _ ih =>
    cases n with
    | zero => exact v.holds_eq head c
    | succ n => exact ih n

theorem kind_peek (same : LookSame v ts us) (n : Nat) : (peek ts n).kind = (peek us n).kind := by
  have kinds := same.holds_peek n (.kind (peek us n).kind)
  simpa [Class.holds] using kinds

theorem leadsToQuery_eq (same : LookSame v ts us) : leadsToQuery ts = leadsToQuery us := by
  induction same with
  | nil => rfl
  | cons head _ ih => rw [leadsToQuery, leadsToQuery, v.kind_eq head, ih]

theorem endsInStar_eq (same : LookSame v ts us) : endsInStar ts = endsInStar us := by
  induction ts using endsInStar.induct generalizing us with
  | case1 d t ts ih =>
    obtain _ | ⟨dot, _ | ⟨label, rest⟩⟩ := same
    have name := v.holds_eq label .label
    simp only [Class.holds] at name
    simp only [endsInStar, v.kind_eq dot, v.kind_eq label, name, ih rest]
  | case2 ts short =>
    obtain _ | ⟨dot, _ | ⟨label, rest⟩⟩ := same
    · rfl
    · rfl
    · exact absurd rfl (short _ _ _)

theorem endsInCall_eq (same : LookSame v ts us) : endsInCall ts = endsInCall us := by
  induction ts using endsInCall.induct generalizing us with
  | case1 =>
    cases same
    rfl
  | case2 t =>
    obtain _ | ⟨head, _ | _⟩ := same
    rw [endsInCall, endsInCall, v.kind_eq head]
  | case3 d t ts _ ih =>
    obtain _ | ⟨dot, _ | ⟨label, rest⟩⟩ := same
    have name := v.holds_eq label .label
    simp only [Class.holds] at name
    simp only [endsInCall, v.kind_eq dot, name, ih rest]
  | case4 d t ts stops =>
    obtain _ | ⟨dot, _ | ⟨label, rest⟩⟩ := same
    have name := v.holds_eq label .label
    simp only [Class.holds] at name
    rw [endsInCall, endsInCall, if_neg stops, ← v.kind_eq dot, ← name, if_neg stops]

theorem standsOutside_eq (same : LookSame v ts us) (k : Kind) (depth : Int) :
    standsOutside k depth ts = standsOutside k depth us := by
  induction same generalizing depth with
  | nil => rfl
  | cons head _ ih => simp only [standsOutside, v.kind_eq head, ih]

end LookSame

theorem Look.holds_eq {l : Look} {ts us : List Token} (same : LookSame v ts us) : l.holds ts = l.holds us := by
  induction l with
  | ahead n c => exact same.holds_peek n c
  | both a b first second | either a b first second => rw [Look.holds, Look.holds, first, second]
  | not a ih => rw [Look.holds, Look.holds, ih]
  | query => exact same.leadsToQuery_eq
  | star =>
    have name := same.holds_peek 0 .name
    simp only [Class.holds] at name
    rw [Look.holds, Look.holds, name, same.drop_one.endsInStar_eq]
  | funcCall =>
    have name := same.holds_peek 0 .name
    have left := same.holds_peek 0 (.kind (.keyword .LEFT))
    have right := same.holds_peek 0 (.kind (.keyword .RIGHT))
    simp only [Class.holds] at name left right
    simp only [Look.holds, name, left, right, same.drop_one.endsInCall_eq]
  | outside k => exact same.standsOutside_eq k 0

/-- What two runs in lockstep have come to. -/
def Matched (v : View) (x y : List Tree × State) : Prop := seenAll v x.1 = seenAll v y.1 ∧ LookSame v x.2.rest y.2.rest

namespace Step

/-- From matched trees and tokens both steps fail, or both come to matched trees and tokens. -/
def Lockstep (v : View) (a b : Step) : Prop :=
  ∀ acc acc' s s', Matched v (acc, s) (acc', s') → Agree (Matched v) (a acc s) (b acc' s')

theorem current_eq {s s' : State} (same : LookSame v s.rest s'.rest) : v.see s.current = v.see s'.current := by
  unfold State.current
  generalize s.rest = ts, s'.rest = us at same
  cases same with
  | nil => rfl
  | cons head _ => exact head

namespace Lockstep

variable {a a' b b' : Step}

theorem done : Lockstep v (fun acc s => .ok (acc, s)) fun acc s => .ok (acc, s) := fun _ _ _ _ => .ok

theorem fail {fault : Fault} : Lockstep v (fun _ s => s.fail fault) fun _ s => s.fail fault := fun _ _ _ _ _ => .error

theorem take : Lockstep v Step.take Step.take := by
  intro acc acc' s s' ⟨trees, same⟩
  unfold Step.take
  dsimp only at same trees
  generalize s.rest = ts, s'.rest = us at same
  obtain _ | ⟨head, _ | ⟨next, tail⟩⟩ := same
  · exact .error
  · exact .error
  · dsimp only
    rw [v.kind_eq head]
    split
    · exact .error
    · exact .ok ⟨by simp [seenAll, Tree.seen, trees, head], .cons next tail⟩

theorem andThen (first : Lockstep v a a') (second : Lockstep v b b') : Lockstep v (a.andThen b) (a'.andThen b') := by
  intro acc acc' s s' matched
  exact (first _ _ _ _ matched).andThen fun _ _ => second _ _ _ _

theorem branch {l : Look} (first : Lockstep v a a') (second : Lockstep v b b') :
    Lockstep v (fun acc s => if l.holds s.rest then a acc s else b acc s)
      fun acc s => if l.holds s.rest then a' acc s else b' acc s := by
  intro acc acc' s s' matched
  dsimp only
  rw [Look.holds_eq matched.2]
  split
  · exact first _ _ _ _ matched
  · exact second _ _ _ _ matched

theorem attempt (first : Lockstep v a a') (second : Lockstep v b b') :
    Lockstep v (fun acc s => match a acc s with | .ok r => .ok r | .error _ => b acc s)
      fun acc s => match a' acc s with | .ok r => .ok r | .error _ => b' acc s := by
  intro acc acc' s s' matched
  dsimp only
  generalize a acc s = x, a' acc' s' = y, first _ _ _ _ matched = both
  cases both with
  | error => exact second _ _ _ _ matched
  | ok related => exact .ok related

theorem loop {l : Look} (each : Lockstep v a a') (n : Nat) : Lockstep v (Step.loop l a n) (Step.loop l a' n) := by
  induction n with
  | zero => exact done
  | succ n ih => exact (each.andThen ih).branch done

theorem swallow {stop : Option Kind} (n depth : Nat) :
    Lockstep v (Step.swallow stop n depth) (Step.swallow stop n depth) := by
  induction n generalizing depth with
  | zero => exact done
  | succ n ih =>
    intro acc acc' s s' matched
    have kind := v.kind_eq (current_eq matched.2)
    have stops : stopsAt stop depth s.current.toLexeme = stopsAt stop depth s'.current.toLexeme := by
      simp only [stopsAt, kind]
    simp only [Step.swallow, stops, kind]
    split
    · exact .ok matched
    · exact take.andThen (ih _) _ _ _ _ matched

end Lockstep
end Step

namespace Part

variable {source source' : List Char} {call call' : Symbol → Step}

@[simp] theorem seen_closeNode (source : List Char) (r : Rule) (first : Token) (isEmpty : Bool) (s : State)
    (children : List Tree) :
    (closeNode source r first isEmpty s children).seen v = .node r .none .none "" (seenAll v children) := by
  unfold closeNode
  split <;> rw [Tree.seen]

@[simp] theorem bare_closeNode (source : List Char) (r : Rule) (first : Token) (isEmpty : Bool) (s : State)
    (children : List Tree) :
    (closeNode source r first isEmpty s children).bare = .node r .none .none "" (Tree.bareAll children) := by
  rw [← Tree.seen_placeless, seen_closeNode, Tree.seenAll_placeless]

/-- Parts go in lockstep if the productions that they call do. -/
theorem run_lockstep (calls : ∀ s, (call s).Lockstep v (call' s)) (p : Part Symbol) :
    (p.run source call).Lockstep v (p.run source' call') := by
  induction p with
  | done => exact .done
  | take => exact .take
  | fail => exact .fail
  | need c fault =>
    intro acc acc' s s' matched
    simp only [run, v.holds_eq (Step.current_eq matched.2)]
    split
    · exact Step.Lockstep.take _ _ _ _ matched
    · exact .error
  | seq a b first second => exact first.andThen second
  | branch l a b first second => exact first.branch second
  | loop l a ih =>
    intro acc acc' s s' matched
    have length := matched.2.length_eq
    simp only [run, length]
    exact ih.loop _ _ _ _ _ matched
  | attempt a b first second => exact first.attempt second
  | swallow stop =>
    intro acc acc' s s' matched
    have length := matched.2.length_eq
    simp only [run, length]
    exact Step.Lockstep.swallow _ 0 _ _ _ _ matched
  | call s => exact calls s
  | node r a ih =>
    intro acc acc' s s' matched
    have trees : seenAll v acc = seenAll v acc' := matched.1
    rw [run_node, run_node]
    exact (ih [] [] s s' ⟨rfl, matched.2⟩).map fun x y related => ⟨by simp [seenAll, trees, related.1], related.2⟩
  | group a ih =>
    intro acc acc' s s' matched
    have trees : seenAll v acc = seenAll v acc' := matched.1
    rw [run_group, run_group]
    exact (ih [] [] s s' ⟨rfl, matched.2⟩).map fun x y related => ⟨by simp [trees, related.1], related.2⟩
  | wrap r a ih =>
    intro acc acc' s s' matched
    rw [run_wrap, run_wrap]
    exact (ih _ _ _ _ matched).map fun x y related => ⟨by simp [seenAll, related.1], related.2⟩

end Part

theorem Symbol.run_lockstep (source source' : List Char) (depth : Nat) (s : Symbol) :
    (Symbol.run source depth s).Lockstep v (Symbol.run source' depth s) := by
  induction depth generalizing s with
  | zero => exact .fail
  | succ depth ih => exact Part.run_lockstep ih _

theorem parseTokens_agree (source source' : List Char) {ts us : List Token} (same : LookSame v ts us) :
    Agree (fun t u => t.seen v = u.seen v) (parseTokens source ts) (parseTokens source' us) := by
  unfold parseTokens
  dsimp only
  rw [same.length_eq]
  generalize Symbol.run source _ _ _ _ = x, Symbol.run source' _ _ _ _ = y,
    Symbol.run_lockstep source source' (Symbol.count * (us.length + 1)) .script [] [] ⟨ts, 0, .none⟩ ⟨us, 0, .none⟩
      ⟨rfl, same⟩ = both
  cases both with
  | error => exact .error
  | @ok x y related =>
    obtain ⟨built, _⟩ := x
    obtain ⟨built', _⟩ := y
    have trees : seenAll v built = seenAll v built' := related.1
    cases built with
    | nil =>
      cases built' with
      | nil => exact .error
      | cons => cases trees
    | cons =>
      cases built' with
      | nil => cases trees
      | cons => exact .ok (List.cons.inj trees).1

end Grammar

/-- Texts that scan without a fault into tokens that look the same have trees that look the same. -/
theorem parse_seen {v : Grammar.View} {s s' : String} (clean : (scan s).errors = []) (clean' : (scan s').errors = [])
    (same : (scan s).tokens.map v.see = (scan s').tokens.map v.see) :
    Agree (fun t u => t.seen v = u.seen v) (parse s) (parse s') := by
  unfold parse parseText
  simp only [scan] at clean clean' same
  simp only [clean, clean']
  generalize Grammar.parseTokens _ _ = x, Grammar.parseTokens _ _ = y,
    Grammar.parseTokens_agree s.toList s'.toList (.of_map_eq same) = both
  cases both with
  | error => exact .error
  | ok related => exact .ok related

theorem Grammar.View.see_placeless_of_lexemes {tokens tokens' : List Token}
    (same : tokens.map Token.toLexeme = tokens'.map Token.toLexeme) :
    tokens.map placeless.see = tokens'.map placeless.see := by
  have through (ts : List Token) : ts.map placeless.see = (ts.map Token.toLexeme).map fun l => ⟨l, .none⟩ := by
    rw [map_map]
    rfl
  rw [through, through, same]

theorem parse_agree {s s' : String} (clean : (scan s).errors = []) (clean' : (scan s').errors = [])
    (same : (scan s).tokens.map Token.toLexeme = (scan s').tokens.map Token.toLexeme) :
    Agree (fun t u => t.bare = u.bare) (parse s) (parse s') :=
  (parse_seen clean clean' (Grammar.View.see_placeless_of_lexemes same)).imp fun t u same => by
    rwa [Tree.seen_placeless, Tree.seen_placeless] at same

end TableLineage
