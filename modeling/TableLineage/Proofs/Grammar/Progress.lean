import TableLineage.Proofs.Grammar.Confined

/-! Parsing gets on: wherever the parser comes, on trial or for good, it stands at a token in front of which there
is no end of the text, and it never tries to read the end. Every production but a few, and every round of a loop,
reads a token or fails, so that neither the bound on the rounds of a loop nor that on the depth is ever what ends
them. -/
namespace TableLineage.Grammar

open List

/-- The parser stands at one of the tokens, with no end of a text behind it. -/
structure State.Inside (tokens : List Token) (s : State) : Prop where
  rest : s.rest = tokens.drop s.read
  within : s.read < tokens.length
  behind : ∀ t ∈ tokens.take s.read, t.kind ≠ .eof

namespace Part

/-- The loops of a part, each with the look that goes on with it. -/
def loops : Part Symbol → List (Look × Part Symbol)
  | .loop l a => (l, a) :: a.loops
  | .seq a b | .branch _ a b | .attempt a b => a.loops ++ b.loops
  | .node _ a | .group a | .wrap _ a => a.loops
  | .done | .take | .need .. | .fail _ | .swallow _ | .call _ => []

end Part

/-- The kinds with which a production starts, where its callers see to that; a script starts with any. -/
def Symbol.entrance (u : Symbol) : Option (List Kind) := if u = .script then none else u.gate

namespace Part

/-- Whether a part reads up to a star that the look has seen. -/
def readsToStar : Look → Part Symbol → Bool
  | .either (.ahead 0 (.kind .star)) .star, .node _ (.seq (.loop (.not (.ahead 0 (.kind .star))) .take) .take) => true
  | _, _ => false

/-- What is known after a part, if it surely reads no end of a text. -/
def guarded : Part Symbol → Ahead → Option Ahead
  | .done, k => some k
  | .take, k => if (k.heads.map fun ks => ks.contains .eof).getD true then none else some k.next
  | .need c _, k => if c.may .eof then none else some k.next
  | .fail _, _ => some []
  | .seq a b, k => (a.guarded k).bind b.guarded
  | .branch l a b, k =>
    (if readsToStar l a then some .anything else a.guarded (k.meet l.tells)).bind fun i =>
      (b.guarded (l.untold k)).map i.join
  | .loop l a, _ => (a.guarded l.tells).map fun _ => .anything
  | .attempt a b, k => (a.guarded k).bind fun i => (b.guarded k).map i.join
  | .swallow _, _ => some .anything
  | .call u, k => if k.heads = u.entrance || k.entails u.entrance then some .anything else none
  | .node _ a, k | .group a, k | .wrap _ a, k => a.guarded k

end Part

/-- A star comes, and the text does not end in front of it. -/
def StarAhead (ts : List Token) : Prop :=
  ∃ front c back, ts = front ++ c :: back ∧ c.kind = .star ∧ ∀ t ∈ front, t.kind ≠ .eof

abbrev toStar : Part Symbol := .loop (.not (.is .star)) .take

/-- A part that reads no end of a text in front of the tokens. -/
inductive Part.Safe : Part Symbol → List Token → Prop
  | guarded {p ts k k'} (guarded : p.guarded k = some k') (known : k.Holds ts) : Safe p ts
  | toStar {ts} (ahead : StarAhead ts) : Safe toStar ts
  | withStar {ts} (ahead : StarAhead ts) : Safe (.seq toStar .take) ts
  | starNode {r ts} (ahead : StarAhead ts) : Safe (.node r (.seq toStar .take)) ts

/-- From one state to another tokens are read, none of which is the end of a text. -/
def State.Passes (s s' : State) : Prop := ∃ taken, s.Reads taken s' ∧ ∀ t ∈ taken, t.kind ≠ .eof

variable {source : List Char} {tokens ts : List Token} {p a : Part Symbol} {acc out : List Tree} {s s' s'' : State}
  {d n m : Nat} {l : Look} {k k' : Ahead} {t : Token} {u : Symbol}

namespace State.Passes

theorem refl (s : State) : s.Passes s := ⟨[], .refl s, by simp⟩

theorem trans (first : s.Passes s') (second : s'.Passes s'') : s.Passes s'' := by
  obtain ⟨taken, reads, inside⟩ := first
  obtain ⟨more, reads', inside'⟩ := second
  exact ⟨taken ++ more, reads.trans reads', forall_mem_append.2 ⟨inside, inside'⟩⟩

theorem one (reads : s.Reads [t] s') (inside : t.kind ≠ .eof) : s.Passes s' := ⟨[t], reads, by simpa using inside⟩

end State.Passes

theorem production_guarded (u : Symbol) : ∃ k, u.production.guarded [[u.entrance]] = some k := by
  rw [← Option.isSome_iff_exists]
  cases u <;> decide +kernel

theorem Ahead.Holds.entrance (known : k.Holds ts) (opens : (k.heads = u.entrance || k.entails u.entrance) = true) :
    Ahead.Holds [[u.entrance]] ts := by
  refine ⟨_, mem_singleton_self _, ?_, trivial⟩
  obtain same | entailed := Bool.or_eq_true_iff.1 opens
  · exact fun ks entry => known.mem_heads ((of_decide_eq_true same).trans entry)
  · exact known.of_entails entailed

theorem readsToStar_cases (reads : Part.readsToStar l a) : l = qualifiedStar ∧ ∃ r, a = .node r (.seq toStar .take) := by
  unfold Part.readsToStar at reads
  split at reads
  · exact ⟨rfl, _, rfl⟩
  · cases reads

theorem starAhead (stars : qualifiedStar.holds ts) : StarAhead ts := by
  obtain ⟨front, c, back, same, star, others⟩ := exists_star stars
  exact ⟨front, c, back, same, star, fun t member => (others t member).2.1⟩

theorem StarAhead.head (ahead : StarAhead (t :: ts)) : t.kind ≠ .eof ∧ (t.kind ≠ .star → StarAhead ts) := by
  obtain ⟨_ | ⟨x, front⟩, c, back, same, star, inside⟩ := ahead
  · cases same
    exact ⟨by simp [star], fun other => absurd star other⟩
  · cases same
    obtain ⟨here, inside⟩ := forall_mem_cons.1 inside
    exact ⟨here, fun _ => ⟨front, c, back, rfl, star, inside⟩⟩

namespace Part

theorem guarded_take (guarded : take.guarded k = some k') (known : k.Holds (t :: ts)) :
    t.kind ≠ .eof ∧ k' = k.next := by
  obtain ⟨sure, ⟨⟩⟩ := Option.ite_none_left_eq_some.1 guarded
  refine ⟨?_, rfl⟩
  rintro eof
  cases heads : k.heads with
  | none => simp [heads] at sure
  | some ks =>
    have member : t.kind ∈ ks := known.mem_heads heads
    simp [heads, ← eof, member] at sure

namespace Ran

/-- On its way to a star the parser passes no end of the text. -/
theorem toStar (ran : Ran source toStar acc s out s') (ahead : StarAhead s.rest) :
    s.Passes s' ∧ StarAhead s'.rest := by
  have step {acc out : List Tree} {s s' : State} (goes : (Look.not (.is .star)).holds s.rest)
      (ran : Ran source .take acc s out s') (ahead : StarAhead s.rest) : s.Passes s' ∧ StarAhead s'.rest := by
    cases ran with
    | @take _ _ t _ reads =>
      rw [reads.rest] at ahead goes
      obtain ⟨inside, next⟩ := ahead.head
      have other : t.kind ≠ .star := by simpa [Look.holds, Look.is, Class.holds, peek] using goes
      exact ⟨.one reads inside, next other⟩
  generalize same : Grammar.toStar = loop at ran
  induction ran with
  | stop => exact ⟨.refl _, ahead⟩
  | last goes first =>
    cases same
    exact step goes first ahead
  | round goes first _ _ ih =>
    cases same
    obtain ⟨passes, ahead⟩ := step goes first ahead
    obtain ⟨others, ahead⟩ := ih ahead rfl
    exact ⟨passes.trans others, ahead⟩
  | _ => cases same

theorem withStar (ran : Ran source (.seq Grammar.toStar .take) acc s out s') (ahead : StarAhead s.rest) :
    s.Passes s' := by
  cases ran with
  | seq one two =>
    obtain ⟨passes, ahead⟩ := one.toStar ahead
    cases two with
    | take reads =>
      rw [reads.rest] at ahead
      exact passes.trans (.one reads ahead.head.1)

theorem guarded (ran : Ran source p acc s out s') (guarded : p.guarded k = some k') (known : k.Holds s.rest) :
    s.Passes s' ∧ k'.Holds s'.rest := by
  induction ran generalizing k k' with
  | done =>
    cases guarded
    exact ⟨.refl _, known⟩
  | take reads =>
    rw [reads.rest] at known
    obtain ⟨inside, rfl⟩ := guarded_take guarded known
    exact ⟨.one reads inside, known.next⟩
  | @need c _ _ _ t _ fits reads =>
    obtain ⟨sure, ⟨⟩⟩ := Option.ite_none_left_eq_some.1 guarded
    rw [reads.rest] at known
    refine ⟨.one reads fun eof => sure ?_, known.next⟩
    have may := Class.may_of_holds fits
    rwa [eof] at may
  | seq _ _ first second =>
    obtain ⟨k₁, one, two⟩ := Option.bind_eq_some_iff.1 guarded
    obtain ⟨passes, known⟩ := first one known
    obtain ⟨others, known⟩ := second two known
    exact ⟨passes.trans others, known⟩
  | goes success first ih =>
    obtain ⟨i, one, rest⟩ := Option.bind_eq_some_iff.1 guarded
    obtain ⟨j, two, rfl⟩ := Option.map_eq_some_iff.1 rest
    split at one
    · next stars =>
      cases one
      obtain ⟨rfl, r, rfl⟩ := readsToStar_cases stars
      cases first with
      | node _ inner => exact ⟨inner.withStar (starAhead success), .join (.inl (Ahead.holds_anything _))⟩
    · obtain ⟨passes, known⟩ := ih one (known.meet (Look.holds_tells success))
      exact ⟨passes, .join (.inl known)⟩
  | turns failure _ ih =>
    obtain ⟨i, one, rest⟩ := Option.bind_eq_some_iff.1 guarded
    obtain ⟨j, two, rfl⟩ := Option.map_eq_some_iff.1 rest
    obtain ⟨passes, known⟩ := ih two (Look.holds_untold known failure)
    exact ⟨passes, .join (.inr known)⟩
  | stop =>
    obtain ⟨i, one, rfl⟩ := Option.map_eq_some_iff.1 guarded
    exact ⟨.refl _, Ahead.holds_anything _⟩
  | last success _ ih =>
    obtain ⟨i, one, rfl⟩ := Option.map_eq_some_iff.1 guarded
    exact ⟨(ih one (Look.holds_tells success)).1, Ahead.holds_anything _⟩
  | round success _ _ ih others =>
    obtain ⟨i, one, rfl⟩ := Option.map_eq_some_iff.1 guarded
    exact ⟨(ih one (Look.holds_tells success)).1.trans (others (k := .anything) guarded (Ahead.holds_anything _)).1,
      Ahead.holds_anything _⟩
  | tried _ ih =>
    obtain ⟨i, one, rest⟩ := Option.bind_eq_some_iff.1 guarded
    obtain ⟨j, two, rfl⟩ := Option.map_eq_some_iff.1 rest
    exact ⟨(ih one known).1, .join (.inl (ih one known).2)⟩
  | instead _ ih =>
    obtain ⟨i, one, rest⟩ := Option.bind_eq_some_iff.1 guarded
    obtain ⟨j, two, rfl⟩ := Option.map_eq_some_iff.1 rest
    exact ⟨(ih two known).1, .join (.inr (ih two known).2)⟩
  | swallow reads inside =>
    cases guarded
    exact ⟨⟨_, reads, inside⟩, Ahead.holds_anything _⟩
  | @call u _ _ _ _ _ ih =>
    obtain ⟨opens, ⟨⟩⟩ := Option.ite_none_right_eq_some.1 guarded
    obtain ⟨k, found⟩ := production_guarded u
    exact ⟨(ih found (known.entrance opens)).1, Ahead.holds_anything _⟩
  | node _ _ ih | group _ ih | wrap _ ih => exact ih guarded known

end Ran

theorem Safe.take (ahead : StarAhead ts) : Safe .take ts := by
  cases ts with
  | nil =>
    obtain ⟨front, c, back, same, _⟩ := ahead
    simp at same
  | cons t ts =>
    refine .guarded (k := [[some [t.kind]]]) (if_neg ?_) ⟨_, mem_singleton_self _, by simp [peek], trivial⟩
    simpa [Ahead.heads] using ahead.head.1.symm

theorem Safe.passes (safe : p.Safe s.rest) (ran : Ran source p acc s out s') : s.Passes s' := by
  cases safe with
  | guarded guarded known => exact (ran.guarded guarded known).1
  | toStar ahead => exact (ran.toStar ahead).1
  | withStar ahead => exact ran.withStar ahead
  | starNode ahead =>
    cases ran with
    | node _ inner => exact inner.withStar ahead

end Part

/-! ### Loops -/

namespace Step

end Step

/-! ### Failures -/

/-- The error is at a token that is still to be read. -/
def State.Fails (s : State) (e : ParseError) : Prop :=
  ∃ taken s', s.Reads taken s' ∧ e.found = s'.current.toLexeme ∧ e.pos = s'.current.span.start

variable {e : ParseError}

theorem State.Reads.fails {taken : List Token} (reads : s.Reads taken s') (fails : s'.Fails e) : s.Fails e := by
  obtain ⟨more, s'', reads', found, pos⟩ := fails
  exact ⟨taken ++ more, s'', reads.trans reads', found, pos⟩

namespace Step

end Step

/-- How things are where a part is run. -/
structure Situation (tokens : List Token) (d : Nat) (p : Part Symbol) (s : State) : Prop where
  passes : (⟨tokens, 0, .none⟩ : State).Passes s
  safe : p.Safe s.rest
  deep : Symbol.count * s.rest.length ≤ d
  opening : ∀ u ∈ p.opening, Symbol.count * s.rest.length + u.rank < d
  loops : ∀ x ∈ p.loops, ∃ u : Symbol, x ∈ u.production.loops

/-- After some tokens a part goes on that opens as the part before it did, or tokens were read. -/
theorem Situation.later {q : Part Symbol} (here : Situation tokens d p s) (passes : s.Passes s') (safe : q.Safe s'.rest)
    (opens : q.opening ⊆ p.opening ∨ s'.rest.length < s.rest.length) (loops : q.loops ⊆ p.loops) :
    Situation tokens d q s' := by
  obtain ⟨_, reads, _⟩ := id passes
  have fewer : Symbol.count * s'.rest.length ≤ Symbol.count * s.rest.length := Nat.mul_le_mul_left _ reads.length_le
  refine ⟨here.passes.trans passes, safe, Nat.le_trans fewer here.deep, fun u member => ?_,
    fun x member => here.loops x (loops member)⟩
  obtain among | less := opens
  · have deep := here.opening u (among member)
    omega
  · have step : Symbol.count * s'.rest.length + Symbol.count ≤ Symbol.count * s.rest.length :=
      Nat.mul_le_mul_left Symbol.count less
    have deep := here.deep
    have bound := u.rank_lt_count
    omega

theorem Situation.part {q : Part Symbol} (here : Situation tokens d p s) (safe : q.Safe s.rest)
    (opens : q.opening ⊆ p.opening) (loops : q.loops ⊆ p.loops) : Situation tokens d q s :=
  here.later (.refl s) safe (.inl opens) loops

theorem State.Passes.inside {last : Token} (tail : tokens.getLast? = some last) (eof : last.kind = .eof)
    (passes : (⟨tokens, 0, .none⟩ : State).Passes s) : s.Inside tokens := by
  obtain ⟨taken, reads, others⟩ := passes
  have whole : tokens = taken ++ s.rest := reads.rest
  have read : s.read = taken.length := by simpa using reads.count
  have more : s.rest ≠ [] := by
    intro none
    rw [whole, none, append_nil] at tail
    exact others last (mem_of_getLast? tail) eof
  refine ⟨?_, ?_, ?_⟩
  · simp [whole, read]
  · have positive := length_pos_iff.2 more
    simp [whole, read, positive]
  · simpa [whole, read] using others

end TableLineage.Grammar
