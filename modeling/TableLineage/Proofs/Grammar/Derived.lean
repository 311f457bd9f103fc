import TableLineage.Proofs.Grammar.Depth
import TableLineage.Proofs.Grammar.Shaped
import TableLineage.Proofs.Grammar.Steady

/-! Where the nodes of a parse tree come from. Each was built by a part of a production, and the part was read
where the tokens that its callers had looked for were still ahead. So the frame of a window, a run of tokens
without any form, is never an empty one: it is only looked for in front of a word that starts it. -/
namespace TableLineage

open List

variable {source : List Char} {t : Tree} {k : Ahead}

namespace Grammar

/-- What a part does besides reading tokens. -/
inductive Deed where
  | enter (s : Symbol)
  /-- Puts what `a` reads under a new node. -/
  | build (r : Rule) (a : Part Symbol)
  /-- Puts what was read so far under a new node. -/
  | gather (r : Rule)

/-- What a part may do, each time with what is known ahead then. -/
def Part.deeds : Part Symbol → Ahead → List (Ahead × Deed)
  | .done, _ | .take, _ | .need .., _ | .fail _, _ | .swallow _, _ => []
  | .seq a b, k => a.deeds k ++ b.deeds .anything
  | .branch l a b, k => a.deeds (k.meet l.tells) ++ b.deeds .anything
  | .loop l a, _ => a.deeds l.tells
  | .attempt a b, k => a.deeds k ++ b.deeds k
  | .call s, k => [(k, .enter s)]
  | .node r a, k => (k, .build r a) :: a.deeds k
  | .group a, k => a.deeds k
  | .wrap r a, k => (k, .gather r) :: a.deeds k

namespace Symbol

/-- The kinds in front of which a production is entered, where its callers see to that. -/
def front : Symbol → Option (List Kind)
  | .columnRef => some Class.name.within
  | _ => none

/-- What the production may do. -/
def deeds (s : Symbol) : List (Ahead × Deed) := s.production.deeds [[s.front]]

end Symbol

theorem front_of_enter {s u : Symbol} (enters : (k, .enter u) ∈ s.deeds) : k.entails u.front := by
  have all : s.deeds.all fun
      | (k, .enter u) => k.entails u.front
      | _ => true := by
    cases s <;> decide +kernel
  exact all_eq_true.1 all _ enters

/-- A tree whose nodes were all built by productions. -/
inductive Derived (source : List Char) : Tree → Prop
  | leaf (t : Token) : Derived source (.leaf t)
  | built {s : Symbol} {k : Ahead} {r a f l x cs} {depth : Nat} {st st' : State} (deed : (k, .build r a) ∈ s.deeds)
      (known : k.Holds st.rest) (ran : a.run source (Symbol.run source depth) [] st = .ok (cs, st'))
      (all : ∀ c ∈ cs, Derived source c) : Derived source (.node r f l x cs)
  | gathered {s : Symbol} {k : Ahead} {r f l x cs} (deed : (k, .gather r) ∈ s.deeds)
      (all : ∀ c ∈ cs, Derived source c) : Derived source (.node r f l x cs)

theorem Derived.child {c : Tree} (derived : Derived source t) (member : c ∈ t.children) : Derived source c := by
  cases derived with
  | leaf => cases member
  | built _ _ _ all => exact all c member
  | gathered _ all => exact all c member

theorem exists_closeNode (source : List Char) (r : Rule) (first : Token) (isEmpty : Bool) (s : State)
    (children : List Tree) : ∃ f l x, closeNode source r first isEmpty s children = .node r f l x children := by
  unfold closeNode
  split <;> exact ⟨_, _, _, rfl⟩

/-- Productions add derived trees only. -/
theorem Part.Ran.derives {p : Part Symbol} {acc out : List Tree} {s s' : State} (ran : Ran source p acc s out s')
    {owner : Symbol} (inside : p.deeds k ⊆ owner.deeds) (known : k.Holds s.rest) (derived : ∀ t ∈ acc, Derived source t) :
    ∀ t ∈ out, Derived source t := by
  induction ran generalizing owner k with
  | done | stop => exact derived
  | take | need => exact forall_mem_append.2 ⟨derived, by simpa using Derived.leaf _⟩
  | swallow => exact forall_mem_append.2 ⟨derived, by simpa using fun t _ => Derived.leaf t⟩
  | seq _ _ first second =>
    obtain ⟨left, right⟩ := append_subset.1 inside
    exact second right (Ahead.holds_anything _) (first left known derived)
  | goes success _ ih =>
    exact ih (append_subset.1 inside).1 (known.meet (Look.holds_tells success)) derived
  | turns _ _ ih => exact ih (append_subset.1 inside).2 (Ahead.holds_anything _) derived
  | last success _ ih => exact ih inside (Look.holds_tells success) derived
  | @round l a _ _ _ _ _ _ success _ _ first second =>
    have again : (Part.loop l a).deeds .anything ⊆ owner.deeds := inside
    exact second again (Ahead.holds_anything _) (first inside (Look.holds_tells success) derived)
  | tried _ ih => exact ih (append_subset.1 inside).1 known derived
  | instead _ ih => exact ih (append_subset.1 inside).2 known derived
  | call _ ih =>
    have entered := front_of_enter (inside (mem_singleton_self _))
    exact ih (List.Subset.refl _) ⟨_, mem_singleton_self _, known.of_entails entered, trivial⟩ derived
  | @node r _ _ s children s' _ ran _ ih =>
    obtain ⟨deed, inside⟩ := cons_subset.1 inside
    obtain ⟨_, _, _, same⟩ := exists_closeNode source r s.current (s'.read = s.read) s' children
    rw [same]
    have below := ih inside known (by simp)
    exact forall_mem_append.2 ⟨derived, forall_mem_singleton.2 (.built deed known ran below)⟩
  | group _ ih => exact forall_mem_append.2 ⟨derived, ih inside known (by simp)⟩
  | @wrap r _ acc s children s' _ ih =>
    obtain ⟨deed, inside⟩ := cons_subset.1 inside
    obtain ⟨_, _, _, same⟩ := exists_closeNode source r ((children.head?.map Tree.first).getD s.current)
      (acc.isEmpty && s'.read = s.read) s' children
    rw [same]
    exact forall_mem_singleton.2 (.gathered deed (ih inside known derived))

theorem parseTokens_derived {tokens : List Token} (parsed : parseTokens source tokens = .ok t) : Derived source t := by
  unfold parseTokens at parsed
  dsimp only at parsed
  split at parsed
  · next ran =>
    cases parsed
    cases Symbol.ran_of_run ran with
    | call inner =>
      refine inner.derives (List.Subset.refl (Symbol.deeds .script)) ?_ (by simp) t mem_cons_self
      exact ⟨_, mem_singleton_self _, by simp [Symbol.front], trivial⟩
  · cases parsed
  · cases parsed

end Grammar

/-! ### Frames -/

open Tree (leavesAll)

/-- No frame of a window in the tree is empty. -/
inductive Tree.Framed : Tree → Prop
  | leaf (t : Token) : Framed (.leaf t)
  | node {r f l x cs} (some : r = .frameClause → leavesAll cs ≠ []) (all : ∀ c ∈ cs, Framed c) : Framed (.node r f l x cs)

theorem Tree.Framed.child {c : Tree} (framed : t.Framed) (member : c ∈ t.children) : c.Framed := by
  cases framed with
  | leaf => cases member
  | node _ all => exact all c member

theorem Tree.Framed.leaves_ne_nil (framed : t.Framed) (rule : t.rule? = some .frameClause) : t.leaves ≠ [] := by
  cases framed with
  | leaf => cases rule
  | node some _ => exact some (Option.some.inj rule)

namespace Grammar

namespace Part

/-- Whether a part is a run of tokens that surely has one. -/
def runs : Part Symbol → Ahead → Bool
  | .swallow stop, k =>
    (k.heads.map fun ks => ks.all fun j => !Step.stopsAt stop 0 { endLexeme with kind := j }).getD false
  | _, _ => false

variable {call : Symbol → Step}

theorem leaves_of_runs {p : Part Symbol} (runs : p.runs k) {s s' : State} {out : List Tree} (known : k.Holds s.rest)
    (ran : p.run source call [] s = .ok (out, s')) : leavesAll out ≠ [] := by
  cases p with
  | swallow stop =>
    have goes : Step.stopsAt stop 0 (peek s.rest 0) = false := by
      simp only [Part.runs] at runs
      cases heads : k.heads with
      | none => simp [heads] at runs
      | some ks =>
        rw [heads] at runs
        have all : ∀ j ∈ ks, Step.stopsAt stop 0 { endLexeme with kind := j } = false := by simpa using runs
        exact all _ (known.mem_heads heads)
    simp only [run] at ran
    cases rest : s.rest with
    | nil =>
      rw [rest] at goes
      cases goes
    | cons t ts =>
      have current : s.current = t := by simp [State.current, rest]
      have goes : Step.stopsAt stop 0 t.toLexeme = false := by simpa [peek, rest] using goes
      rw [rest, length_cons, Step.swallow, current, goes] at ran
      obtain ⟨middle, s₁, one, more⟩ := Step.andThen_ok ran
      obtain ⟨u, rfl, _⟩ := Step.take_ok one
      obtain ⟨us, rfl, _⟩ := ran_of_swallow more
      simp [leavesAll, Tree.leaves]
  | _ => cases runs

end Part

/-- A frame is only built in front of a token that is surely in it. -/
def Deed.frames : Ahead × Deed → Bool
  | (k, .build r a) => r ≠ .frameClause || a.runs k
  | (_, .gather r) => r ≠ .frameClause
  | (_, .enter _) => true

theorem frames_of_mem {s : Symbol} {d : Ahead × Deed} (member : d ∈ s.deeds) : Deed.frames d := by
  have all : s.deeds.all Deed.frames := by
    cases s <;> decide +kernel
  exact all_eq_true.1 all d member

theorem Derived.framed (derived : Derived source t) : t.Framed := by
  induction derived with
  | leaf t => exact .leaf t
  | built deed known ran _ below =>
    refine .node (fun frame => ?_) below
    obtain other | runs := Bool.or_eq_true_iff.1 (frames_of_mem deed)
    · exact absurd frame (of_decide_eq_true other)
    · exact Part.leaves_of_runs runs known ran
  | gathered deed _ below =>
    have other := frames_of_mem deed
    exact .node (fun frame => absurd frame (of_decide_eq_true other)) below

theorem parseTokens_framed {tokens : List Token} (parsed : parseTokens source tokens = .ok t) : t.Framed :=
  (parseTokens_derived parsed).framed

end Grammar
end TableLineage
