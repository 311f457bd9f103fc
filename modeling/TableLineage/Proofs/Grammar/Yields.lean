import TableLineage.Grammar.Parse

/-! What a part makes of the tokens in front of it, said forwards: given tokens that suit it, a
part reads just these and adds subtrees that depend on nothing else. -/
namespace TableLineage

open List

/-- The node of the tokens `ts`, of which there are some. -/
def Tree.covering (source : List Char) (r : Rule) (ts : List Token) (kids : List Tree) : Tree :=
  .node r (ts.headD .none) (ts.getLastD .none)
    (String.ofList (Text.slice source (ts.headD .none).span.start.offset (ts.getLastD .none).span.stop.offset)) kids

namespace Grammar

namespace Step

/-- In front of `rest`, the step reads the tokens `ts` and adds `kids`. -/
def Yields (step : Step) (ts rest : List Token) (kids : List Tree) : Prop :=
  ∀ acc read last, step acc ⟨ts ++ rest, read, last⟩ =
    .ok (acc ++ kids, ⟨rest, read + ts.length, ts.getLastD last⟩)

/-- The step, repeated as long as `l` holds, reads the tokens `ts`. -/
def Repeats (l : Look) (step : Step) (ts rest : List Token) (kids : List Tree) : Prop :=
  ∀ n, ts.length ≤ n → (loop l step n).Yields ts rest kids

variable {a b : Step} {ts us rest : List Token} {ks ls : List Tree} {l : Look}

theorem Yields.take {t : Token} (known : t.kind ≠ .illegal) (more : rest ≠ []) :
    Step.take.Yields [t] rest [.leaf t] := by
  intro acc read last
  obtain ⟨u, rest, rfl⟩ := exists_cons_of_ne_nil more
  simp [Step.take, known]

theorem getLastD_append (ts us : List Token) (last : Token) :
    (ts ++ us).getLastD last = us.getLastD (ts.getLastD last) := by
  induction ts generalizing last with
  | nil => rfl
  | cons t ts ih => rw [cons_append, getLastD_cons, ih, getLastD_cons]

theorem Yields.andThen (first : a.Yields ts (us ++ rest) ks) (second : b.Yields us rest ls) :
    (a.andThen b).Yields (ts ++ us) rest (ks ++ ls) := by
  intro acc read last
  rw [Step.andThen, append_assoc, first]
  dsimp only
  rw [second, append_assoc, length_append, Nat.add_assoc, getLastD_append]

namespace Repeats

theorem stop (stopped : l.holds rest = false) : Repeats l a [] rest [] := by
  intro n _ acc read last
  cases n <;> simp [loop, stopped]

theorem step (goes : l.holds (ts ++ (us ++ rest)) = true) (some : ts ≠ []) (first : a.Yields ts (us ++ rest) ks)
    (others : Repeats l a us rest ls) : Repeats l a (ts ++ us) rest (ks ++ ls) := by
  intro n enough
  have positive := length_pos_iff.2 some
  rw [length_append] at enough
  obtain ⟨n, rfl⟩ : ∃ m, n = m + 1 := ⟨n - 1, by omega⟩
  have both := first.andThen (others n (by omega))
  intro acc read last
  rw [loop, append_assoc, if_pos goes, ← append_assoc]
  exact both acc read last

end Repeats
end Step

namespace Part

variable {source : List Char} {enter : Symbol → Step}

/-- In front of `rest`, the part reads the tokens `ts` and adds `kids`. -/
def Yields (source : List Char) (enter : Symbol → Step) (p : Part Symbol) (ts rest : List Token) (kids : List Tree) :
    Prop :=
  (p.run source enter).Yields ts rest kids

namespace Yields

variable {p q : Part Symbol} {ts us rest : List Token} {ks ls : List Tree} {l : Look} {t : Token}

theorem done : Yields source enter .done [] rest [] := by
  intro acc read last
  simp [run]

theorem take (known : t.kind ≠ .illegal) (more : rest ≠ []) : Yields source enter .take [t] rest [.leaf t] :=
  Step.Yields.take known more

theorem need {c : Class} {fault : Fault} (fits : c.holds t.toLexeme) (known : t.kind ≠ .illegal) (more : rest ≠ []) :
    Yields source enter (.need c fault) [t] rest [.leaf t] := by
  intro acc read last
  dsimp only [run]
  rw [if_pos (by simpa [State.current] using fits)]
  exact Step.Yields.take known more acc read last

theorem tok {k : Kind} (kind : t.kind = k) (known : k ≠ .illegal) (more : rest ≠ []) :
    Yields source enter (.tok k) [t] rest [.leaf t] :=
  need (by simp [Class.holds, kind]) (by rwa [kind]) more

theorem seq (first : Yields source enter p ts (us ++ rest) ks) (second : Yields source enter q us rest ls) :
    Yields source enter (.seq p q) (ts ++ us) rest (ks ++ ls) :=
  Step.Yields.andThen first second

theorem branch_pos (goes : l.holds (ts ++ rest) = true) (first : Yields source enter p ts rest ks) :
    Yields source enter (.branch l p q) ts rest ks := by
  intro acc read last
  dsimp only [run]
  rw [if_pos goes]
  exact first acc read last

theorem branch_neg (stops : l.holds (ts ++ rest) = false) (second : Yields source enter q ts rest ks) :
    Yields source enter (.branch l p q) ts rest ks := by
  intro acc read last
  dsimp only [run]
  rw [if_neg (by simp [stops])]
  exact second acc read last

theorem loop (repeats : Step.Repeats l (p.run source enter) ts rest ks) :
    Yields source enter (.loop l p) ts rest ks := by
  intro acc read last
  exact repeats (ts ++ rest).length (by simp) acc read last

theorem call {s : Symbol} (yields : (enter s).Yields ts rest ks) :
    Yields source enter (.call s) ts rest ks :=
  yields

theorem node {r : Rule} (inner : Yields source enter p ts rest ks) (some : ts ≠ []) :
    Yields source enter (.node r p) ts rest [.covering source r ts ks] := by
  intro acc read last
  obtain ⟨t, us, rfl⟩ := exists_cons_of_ne_nil some
  have final : (t :: us).getLastD last = (t :: us).getLastD .none := by
    rw [getLastD_cons, getLastD_cons]
  have grown : ¬ read + (t :: us).length = read := by simp
  dsimp only [run]
  rw [inner]
  simp only [closeNode, grown, decide_false, Bool.false_eq_true, if_false, final]
  rfl

/-- Brackets around what `b` reads, put under one node when the closing one has been found. -/
theorem bracketed {a b c : Part Symbol} {r : Rule} {u : Token}
    (opening : Yields source enter a [t] (us ++ ([u] ++ rest)) [.leaf t])
    (inner : Yields source enter b us ([u] ++ rest) ks) (stops : l.holds ([u] ++ rest) = false)
    (closing : Yields source enter c [u] rest [.leaf u]) :
    Yields source enter (.group (.seq a (.seq b (.branch l q (.wrap r c))))) (t :: (us ++ [u])) rest
      [.covering source r (t :: (us ++ [u])) (.leaf t :: (ks ++ [.leaf u]))] := by
  intro acc read last
  have first : run source enter a [] ⟨[t] ++ (us ++ ([u] ++ rest)), read, last⟩ =
      .ok ([.leaf t], ⟨us ++ ([u] ++ rest), read + 1, t⟩) := opening [] read last
  have second : run source enter b [.leaf t] ⟨us ++ ([u] ++ rest), read + 1, t⟩ =
      .ok (.leaf t :: ks, ⟨[u] ++ rest, read + 1 + us.length, us.getLastD t⟩) := inner [.leaf t] (read + 1) t
  have third := closing (.leaf t :: ks) (read + 1 + us.length) (us.getLastD t)
  have tokens : t :: (us ++ [u]) ++ rest = [t] ++ (us ++ ([u] ++ rest)) := by simp
  have count : read + (t :: (us ++ [u])).length = read + 1 + us.length + 1 := by simp; omega
  have final (t' : Token) : (t :: (us ++ [u])).getLastD t' = u := by
    rw [getLastD_cons, Step.getLastD_append]
    rfl
  rw [tokens, count, final, Tree.covering, final]
  dsimp only [run, Step.andThen]
  rw [first]
  dsimp only
  rw [second]
  dsimp only
  rw [if_neg (Bool.eq_false_iff.1 stops), third]
  rfl

end Yields
end Part
end Grammar
end TableLineage
