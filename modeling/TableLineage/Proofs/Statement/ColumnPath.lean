import Mathlib.Data.List.Basic
import TableLineage.Proofs.Grammar.Derived
import TableLineage.Proofs.Statement.Placed

/-! Columns are written as paths: a name, then labels behind dots and subscripts in brackets, in any order, and
perhaps a star. The first bracket hands the rest of the path over to a node of its own, from which subscripts
are read but no labels. So a column keeps its star and all its subscripts, but of its labels only those in front of
the first bracket. -/
namespace TableLineage

open List

/-! ### Paths -/

/-- A step on the way into a column. -/
inductive PathStep where
  | label (dot name : Token) (isDot : dot.kind = .dot) (isLabel : name.isLabel)
  | subscript (opening : Token) (index : Tree) (closing : Token) (opens : opening.kind = .lbracket)
      (isIndex : index.rule? = some .aExprOr) (closes : closing.kind = .rbracket)
  | slice (opening : Token) (low : Tree) (colon : Token) (high : Tree) (closing : Token)
      (opens : opening.kind = .lbracket) (isLow : low.rule? = some .aExprOr) (isColon : colon.kind = .colon)
      (isHigh : high.rule? = some .aExprOr) (closes : closing.kind = .rbracket)

namespace PathStep

/-- What the step is written with. -/
def trees : PathStep → List Tree
  | label dot name .. => [.leaf dot, .leaf name]
  | subscript opening index closing .. => [.leaf opening, index, .leaf closing]
  | slice opening low colon high closing .. => [.leaf opening, low, .leaf colon, high, .leaf closing]

def name? : PathStep → Option Token
  | label _ name .. => some name
  | _ => none

def isLabel (s : PathStep) : Bool := s.name?.isSome

def indices : PathStep → List Tree
  | label .. => []
  | subscript _ index .. => [index]
  | slice _ low _ high .. => [low, high]

end PathStep

/-- A column as it is written. -/
structure ColumnPath where
  head : Token
  isName : head.isName
  steps : List PathStep
  /-- The dot and the star at the end. -/
  star : Option (Token × Token)
  isStar : ∀ s ∈ star, s.1.kind = .dot ∧ s.2.kind = .star

namespace ColumnPath

def starTrees (p : ColumnPath) : List Tree := p.star.toList.flatMap fun s => [.leaf s.1, .leaf s.2]

def trees (p : ColumnPath) : List Tree := .leaf p.head :: p.steps.flatMap PathStep.trees ++ p.starTrees

/-- All names on the path. -/
def names (p : ColumnPath) : List Token := p.head :: p.steps.filterMap PathStep.name?

/-- The names in front of the first bracket. -/
def leading (p : ColumnPath) : List Token := p.head :: (p.steps.takeWhile PathStep.isLabel).filterMap PathStep.name?

def indices (p : ColumnPath) : List Tree := p.steps.flatMap PathStep.indices

/-- No label comes after a bracket. -/
def LabelsFirst (p : ColumnPath) : Prop := p.steps.Pairwise fun a b => b.isLabel → a.isLabel

theorem filterMap_takeWhile_iff (steps : List PathStep) :
    (steps.takeWhile PathStep.isLabel).filterMap PathStep.name? = steps.filterMap PathStep.name? ↔
      steps.Pairwise fun a b => b.isLabel → a.isLabel := by
  induction steps with
  | nil => simp
  | cons s steps ih =>
    cases found : s.name? with
    | some n => simpa [PathStep.isLabel, found] using ih
    | none =>
      have bracket : s.isLabel = false := by simp [PathStep.isLabel, found]
      simp only [takeWhile_cons_of_neg (Bool.eq_false_iff.1 bracket), filterMap_nil,
        filterMap_cons_none found, pairwise_cons, bracket]
      rw [eq_comm, filterMap_eq_nil_iff]
      constructor
      · intro none
        have plain : ∀ b ∈ steps, b.isLabel = false := fun b member => by simp [PathStep.isLabel, none b member]
        exact ⟨fun b member label => by simp [plain b member] at label,
          pairwise_of_forall_mem_list fun a _ b member label => by simp [plain b member] at label⟩
      · rintro ⟨none, -⟩ b member
        have plain := none b member
        simpa [PathStep.isLabel] using plain

theorem leading_prefix_names (p : ColumnPath) : p.leading <+: p.names :=
  cons_prefix_cons.2 ⟨rfl, ( takeWhile_prefix _).filterMap _⟩

theorem map_leading_eq_iff {α : Type} (p : ColumnPath) (f : Token → α) :
    p.leading.map f = p.names.map f ↔ p.LabelsFirst := by
  have whole : p.leading = p.names ↔ p.LabelsFirst := by
    simpa [leading, names, LabelsFirst] using filterMap_takeWhile_iff p.steps
  rw [← whole]
  refine ⟨fun same => p.leading_prefix_names.eq_of_length ?_, fun same => by rw [same]⟩
  simpa using congrArg List.length same

end ColumnPath

/-- A tree, or its children where it only holds the rest of a path. -/
def Tree.spread (t : Tree) : List Tree := if t.hasRule .indirection then t.children else [t]

/-! ### How columns are parsed -/

variable {p : ColumnPath} {kids : List Tree} {labels rest : List PathStep} {u : Grammar.Symbol} {t : Tree}

namespace Grammar

variable {source : List Char} {acc out : List Tree} {s s' : State}

/-- A production that builds a node adds it and nothing else. -/
theorem Symbol.run_of_node {r : Rule} {a : Part Symbol} {depth : Nat} (builds : u.production = .node r a)
    (ran : Symbol.run source depth u acc s = .ok (out, s')) :
    ∃ c d, out = acc ++ [c] ∧ c.rule? = some r ∧ a.run source (Symbol.run source d) [] s = .ok (c.children, s') := by
  cases depth with
  | zero => cases ran
  | succ d =>
    rw [Symbol.run, builds] at ran
    simp only [Part.run] at ran
    split at ran
    · next children _ inner =>
      cases ran
      obtain ⟨_, _, _, same⟩ := exists_closeNode source r s.current (s'.read = s.read) s' children
      exact ⟨_, d, rfl, by rw [same]; rfl, by rw [same]; exact inner⟩
    · cases ran

theorem Part.need_ok {c : Class} {fault : Fault} {call : Symbol → Step}
    (ran : (Part.need c fault).run source call acc s = .ok (out, s')) :
    ∃ t, out = acc ++ [.leaf t] ∧ c.holds t.toLexeme := by
  simp only [Part.run] at ran
  split at ran
  · next fits =>
    obtain ⟨t, rfl, reads⟩ := Step.take_ok ran
    refine ⟨t, rfl, ?_⟩
    simpa [State.current, reads.rest] using fits
  · cases ran

theorem Part.opt_ok {l : Look} {p : Part Symbol} {call : Symbol → Step}
    (ran : (Part.opt l p).run source call acc s = .ok (out, s')) :
    (l.holds s.rest ∧ p.run source call acc s = .ok (out, s')) ∨ (out = acc ∧ s' = s) := by
  simp only [Part.opt, Part.run] at ran
  split at ran
  · next success => exact .inl ⟨success, ran⟩
  · cases ran
    exact .inr ⟨rfl, rfl⟩

/-- Where a path goes on. -/
def onward : Look := .either .dotLabel (.is .lbracket)

/-- A subscript or a slice. -/
def bracketPart : Part Symbol :=
  .all [.take, .call .orExpr, .opt (.is .colon) (.seq .take (.call .orExpr)), .tok .rbracket]

/-- What follows the first bracket of a path, the bracket included. -/
def indirectionPart : Part Symbol := .loop onward (.branch (.is .lbracket) bracketPart .two)

def columnPart : Part Symbol :=
  .all [.take, .loop onward (.branch (.is .lbracket) (.call .indirection) .two),
    .opt (.both (.is .dot) (.next .star)) .two]

theorem production_indirection : Symbol.production .indirection = .node .indirection indirectionPart := rfl

variable {depth : Nat}

theorem label_of_two (goes : onward.holds s.rest) (plain : (Look.is .lbracket).holds s.rest = false)
    (ran : Part.two.run source (Symbol.run source depth) acc s = .ok (out, s')) :
    ∃ step : PathStep, step.isLabel ∧ out = acc ++ step.trees := by
  obtain ⟨_, _, one, two⟩ := Step.andThen_ok ran
  obtain ⟨t, rfl, reads⟩ := Step.take_ok one
  obtain ⟨u, rfl, more⟩ := Step.take_ok two
  have dotted : Look.dotLabel.holds s.rest := (Bool.or_eq_true_iff.1 goes).resolve_right (by simp [plain])
  obtain ⟨dot, label⟩ := Bool.and_eq_true_iff.1 dotted
  rw [reads.rest, more.rest] at dot label
  exact ⟨.label t u (by simpa [Look.is, Look.holds, Class.holds, peek] using dot)
    (by simpa [Look.holds, Class.holds, peek] using label), rfl, by simp [PathStep.trees]⟩

theorem bracket_of_part (opens : (Look.is .lbracket).holds s.rest)
    (ran : bracketPart.run source (Symbol.run source depth) acc s = .ok (out, s')) :
    ∃ step : PathStep, step.isLabel = false ∧ out = acc ++ step.trees := by
  obtain ⟨_, s₁, one, ran⟩ := Step.andThen_ok ran
  obtain ⟨t, rfl, reads⟩ := Step.take_ok one
  have opens : t.kind = .lbracket := by simpa [Look.is, Look.holds, Class.holds, peek, reads.rest] using opens
  obtain ⟨_, s₂, two, ran⟩ := Step.andThen_ok ran
  obtain ⟨low, _, rfl, isLow, _⟩ := Symbol.run_of_node rfl two
  obtain ⟨middle, s₃, three, ran⟩ := Step.andThen_ok ran
  obtain ⟨u, rfl, closes⟩ := Part.need_ok ran
  have closes : u.kind = .rbracket := by simpa [Class.holds] using closes
  obtain ⟨colon, slice⟩ | ⟨rfl, rfl⟩ := Part.opt_ok three
  · obtain ⟨_, s₄, four, five⟩ := Step.andThen_ok slice
    obtain ⟨v, rfl, reads⟩ := Step.take_ok four
    obtain ⟨high, _, rfl, isHigh, _⟩ := Symbol.run_of_node rfl five
    have colon : v.kind = .colon := by simpa [Look.is, Look.holds, Class.holds, peek, reads.rest] using colon
    exact ⟨.slice t low v high u opens isLow colon isHigh closes, rfl, by simp [PathStep.trees]⟩
  · exact ⟨.subscript t low u opens isLow closes, rfl, by simp [PathStep.trees]⟩

/-- Each round of the rest of a path is a step. -/
theorem step_of_round (goes : onward.holds s.rest)
    (ran : (Part.branch (.is .lbracket) bracketPart .two).run source (Symbol.run source depth) acc s = .ok (out, s')) :
    ∃ step : PathStep, step.isLabel = !(Look.is .lbracket).holds s.rest ∧ out = acc ++ step.trees := by
  simp only [Part.run] at ran
  split at ran
  · next opens =>
    rw [opens]
    exact bracket_of_part opens ran
  · next plain =>
    rw [Bool.eq_false_iff.2 plain]
    exact label_of_two goes (Bool.eq_false_iff.2 plain) ran

theorem steps_of_loop {n : Nat}
    (ran : Step.loop onward ((Part.branch (.is .lbracket) bracketPart .two).run source (Symbol.run source depth)) n acc s =
      .ok (out, s')) : ∃ steps : List PathStep, out = acc ++ steps.flatMap PathStep.trees := by
  induction n generalizing acc s with
  | zero =>
    cases ran
    exact ⟨[], by simp⟩
  | succ n ih =>
    rw [Step.loop] at ran
    split at ran
    · next goes =>
      obtain ⟨_, _, one, more⟩ := Step.andThen_ok ran
      obtain ⟨step, _, rfl⟩ := step_of_round goes one
      obtain ⟨steps, rfl⟩ := ih more
      exact ⟨step :: steps, by simp⟩
    · cases ran
      exact ⟨[], by simp⟩

/-- A loop over rounds that read something ends where the path does not go on. -/
theorem not_onward_of_loop {p : Part Symbol} (eats : p.eats onward.told)
    (ran : Step.loop onward (p.run source (Symbol.run source depth)) s.rest.length acc s = .ok (out, s')) :
    onward.holds s'.rest = false := by
  exact Step.loop_ends rfl (fun _ _ _ _ goes one => (Part.ran_of_run one).eats eats (Look.holds_told goes))
    (Nat.le_refl _) ran

/-- What a bracket opens starts with a subscript or slice and goes on to where the path ends. -/
theorem steps_of_indirection (opens : (Look.is .lbracket).holds s.rest)
    (ran : indirectionPart.run source (Symbol.run source depth) [] s = .ok (out, s')) :
    ∃ (step : PathStep) (steps : List PathStep), step.isLabel = false ∧ out = (step :: steps).flatMap PathStep.trees ∧
      onward.holds s'.rest = false := by
  have ends : onward.holds s'.rest = false := not_onward_of_loop (by decide) ran
  have goes : onward.holds s.rest := Bool.or_eq_true_iff.2 (.inr opens)
  obtain ⟨n, count⟩ : ∃ n, s.rest.length = n + 1 := by
    cases rest : s.rest with
    | nil =>
      rw [rest] at opens
      cases opens
    | cons t ts => exact ⟨ts.length, rfl⟩
  change Step.loop onward _ s.rest.length [] s = _ at ran
  rw [count, Step.loop, if_pos goes] at ran
  obtain ⟨_, _, one, more⟩ := Step.andThen_ok ran
  obtain ⟨step, bracket, rfl⟩ := step_of_round goes one
  obtain ⟨steps, rfl⟩ := steps_of_loop more
  exact ⟨step, steps, by simpa [opens] using bracket, by simp, ends⟩

/-- The part of a path that starts with a bracket, as the children of a column have it. -/
inductive Handed : List Tree → List PathStep → Prop
  | nothing : Handed [] []
  | node {c : Tree} {step : PathStep} {steps : List PathStep} (rule : c.rule? = some .indirection)
      (bracket : step.isLabel = false) (children : c.children = (step :: steps).flatMap PathStep.trees) :
      Handed [c] (step :: steps)

/-- A column goes on with labels until a bracket takes the rest of its path. -/
theorem labels_of_loop {n : Nat}
    (ran : Step.loop onward ((Part.branch (.is .lbracket) (.call .indirection) .two).run source
      (Symbol.run source depth)) n acc s = .ok (out, s')) :
    ∃ (labels steps : List PathStep) (kids : List Tree), (∀ l ∈ labels, l.isLabel) ∧ Handed kids steps ∧
      out = acc ++ labels.flatMap PathStep.trees ++ kids := by
  induction n generalizing acc s with
  | zero =>
    cases ran
    exact ⟨[], [], [], by simp, .nothing, by simp⟩
  | succ n ih =>
    rw [Step.loop] at ran
    split at ran
    · next goes =>
      obtain ⟨_, s₁, one, more⟩ := Step.andThen_ok ran
      simp only [Part.run] at one
      split at one
      · next opens =>
        obtain ⟨c, _, rfl, rule, inner⟩ := Symbol.run_of_node production_indirection one
        obtain ⟨step, steps, bracket, children, ends⟩ := steps_of_indirection opens inner
        -- The path has ended where the bracket's node ends, so the loop does, too.
        have same : out = acc ++ [c] := by
          cases n with
          | zero =>
            cases more
            rfl
          | succ =>
            rw [Step.loop, if_neg (Bool.eq_false_iff.1 ends)] at more
            cases more
            rfl
        exact ⟨[], step :: steps, [c], by simp, .node rule bracket children, by simp [same]⟩
      · next plain =>
        obtain ⟨label, isLabel, rfl⟩ := label_of_two goes (Bool.eq_false_iff.2 plain) one
        obtain ⟨labels, steps, kids, all, handed, rfl⟩ := ih more
        exact ⟨label :: labels, steps, kids, by simpa [isLabel] using all, handed, by simp⟩
    · cases ran
      exact ⟨[], [], [], by simp, .nothing, by simp⟩

theorem star_of_two (ahead : (Look.both (.is .dot) (.next .star)).holds s.rest)
    (ran : Part.two.run source (Symbol.run source depth) acc s = .ok (out, s')) :
    ∃ t u : Token, t.kind = .dot ∧ u.kind = .star ∧ out = acc ++ [.leaf t, .leaf u] := by
  obtain ⟨_, _, one, two⟩ := Step.andThen_ok ran
  obtain ⟨t, rfl, reads⟩ := Step.take_ok one
  obtain ⟨u, rfl, more⟩ := Step.take_ok two
  obtain ⟨dot, star⟩ := Bool.and_eq_true_iff.1 ahead
  rw [reads.rest, more.rest] at dot star
  exact ⟨t, u, by simpa [Look.is, Look.holds, Class.holds, peek] using dot,
    by simpa [Look.next, Look.holds, Class.holds, peek] using star, by simp⟩

end Grammar

/-- Children that a path is written with, the rest of it behind the first bracket under a node of its own. -/
structure ColumnPath.Written (p : ColumnPath) (labels rest : List PathStep) (kids cs : List Tree) : Prop where
  steps : p.steps = labels ++ rest
  labelled : ∀ l ∈ labels, l.isLabel
  handed : Grammar.Handed kids rest
  children : cs = .leaf p.head :: labels.flatMap PathStep.trees ++ kids ++ p.starTrees

namespace Grammar

theorem written_of_run (known : Ahead.Holds [[Symbol.front .columnRef]] s.rest)
    (ran : columnPart.run source (Symbol.run source depth) [] s = .ok (out, s')) :
    ∃ (p : ColumnPath) (labels rest : List PathStep) (kids : List Tree), p.Written labels rest kids out := by
  obtain ⟨_, s₁, one, ran⟩ := Step.andThen_ok ran
  obtain ⟨head, rfl, front⟩ := Step.take_ok one
  have isName : head.isName := by
    obtain ⟨_, among, fits⟩ := known
    cases mem_singleton.1 among
    have kind := Class.mem_within.1 (fits.1 _ rfl)
    rw [front.rest] at kind
    exact kind
  obtain ⟨_, s₂, two, three⟩ := Step.andThen_ok ran
  obtain ⟨labels, rest, kids, labelled, handed, rfl⟩ := labels_of_loop two
  obtain ⟨ahead, last⟩ | ⟨rfl, rfl⟩ := Part.opt_ok three
  · obtain ⟨t, u, dot, star, rfl⟩ := star_of_two ahead last
    exact ⟨⟨head, isName, labels ++ rest, some (t, u), by simpa using ⟨dot, star⟩⟩, labels, rest, kids, rfl, labelled,
      handed, by simp [ColumnPath.starTrees]⟩
  · exact ⟨⟨head, isName, labels ++ rest, none, by simp⟩, labels, rest, kids, rfl, labelled, handed,
      by simp [ColumnPath.starTrees]⟩

/-- Columns are only built by the production for columns. -/
theorem build_columnRef {k : Ahead} {a : Part Symbol} (deed : (k, .build .columnRef a) ∈ u.deeds) :
    k = [[Symbol.front .columnRef]] ∧ a = columnPart := by
  have home : u.deeds.all fun
      | (_, .build r _) => r ≠ .columnRef || u = .columnRef
      | _ => true := by
    cases u <;> decide +kernel
  obtain rfl : u = .columnRef := by simpa using all_eq_true.1 home _ deed
  obtain same | later := mem_cons.1 deed
  · cases same
    exact ⟨rfl, rfl⟩
  · simp [Part.deeds, Part.all, Part.opt, Part.two] at later

theorem not_gather_columnRef {k : Ahead} : (k, .gather .columnRef) ∉ u.deeds := by
  have none : u.deeds.all fun
      | (_, .gather r) => r ≠ .columnRef
      | _ => true := by
    cases u <;> decide +kernel
  intro deed
  simpa using all_eq_true.1 none _ deed

theorem Derived.written (derived : Derived source t) (rule : t.rule? = some .columnRef) :
    ∃ (p : ColumnPath) (labels rest : List PathStep) (kids : List Tree), p.Written labels rest kids t.children := by
  cases derived with
  | leaf => cases rule
  | built deed known ran _ =>
    cases rule
    obtain ⟨rfl, rfl⟩ := build_columnRef deed
    exact written_of_run known ran
  | gathered deed _ =>
    cases rule
    exact absurd deed not_gather_columnRef

end Grammar

/-! ### How columns are read -/

/-- What is no label has another kind. -/
theorem kind_ne_of_isLabel {l : Lexeme} {k : Kind} (label : l.isLabel) (other : (k = .ident || k.isKeyword) = false) :
    l.kind ≠ k := by
  rintro rfl
  cases other.symm.trans label

/-- A child of a column that is one of its names. -/
def Tree.isNaming (c : Tree) : Bool := !c.hasRule .indirection && !c.is .dot && !c.is .star

theorem Tree.isNaming_leaf {t : Token} (label : t.isLabel) : (Tree.leaf t).isNaming = true := by
  simp [isNaming, hasRule, rule?, is, kind_ne_of_isLabel label (k := .dot) rfl,
    kind_ne_of_isLabel label (k := .star) rfl]

theorem PathStep.filter_isNaming {l : PathStep} (label : l.isLabel) :
    l.trees.filter Tree.isNaming = l.name?.toList.map .leaf := by
  cases l with
  | label dot name isDot isLabel =>
    have dropped : (Tree.leaf dot).isNaming = false := by simp [Tree.isNaming, Tree.is, isDot]
    simp [trees, name?, dropped, Tree.isNaming_leaf isLabel]
  | _ => cases label

namespace ColumnPath.Written

variable {cs : List Tree} (written : p.Written labels rest kids cs)

include written

theorem spread_eq : cs.flatMap Tree.spread = p.trees := by
  have leaf (t : Token) : (Tree.leaf t).spread = [.leaf t] := rfl
  have plain {l : PathStep} (label : l.isLabel) : l.trees.flatMap Tree.spread = l.trees := by
    cases l with
    | label => rfl
    | _ => cases label
  have labelled : (labels.flatMap PathStep.trees).flatMap Tree.spread = labels.flatMap PathStep.trees := by
    rw [flatMap_assoc]
    exact flatMap_congr fun l member => plain (written.labelled l member)
  have handed : kids.flatMap Tree.spread = rest.flatMap PathStep.trees := by
    cases written.handed with
    | nothing => rfl
    | node rule _ children => simpa [Tree.spread, Tree.hasRule, rule] using children
  have star : p.starTrees.flatMap Tree.spread = p.starTrees := by
    cases found : p.star <;> simp [starTrees, found, leaf]
  simp [written.children, trees, written.steps, leaf, labelled, handed, star]

theorem leading_eq : p.leading = p.head :: labels.filterMap PathStep.name? := by
  have stops : rest.takeWhile PathStep.isLabel = [] := by
    cases written.handed with
    | nothing => rfl
    | node _ bracket _ => exact takeWhile_cons_of_neg (Bool.eq_false_iff.1 bracket)
  rw [leading, written.steps, takeWhile_append_of_pos written.labelled, stops, append_nil]

theorem names_eq : (cs.filter Tree.isNaming).map Tree.token = p.leading := by
  have labelled : (labels.flatMap PathStep.trees).filter Tree.isNaming = (labels.filterMap PathStep.name?).map .leaf := by
    rw [filter_flatMap, filterMap_eq_flatMap_toList, map_flatMap]
    exact flatMap_congr fun l member => PathStep.filter_isNaming (written.labelled l member)
  have handed : kids.filter Tree.isNaming = [] := by
    cases written.handed with
    | nothing => rfl
    | node rule _ _ => simp [Tree.isNaming, Tree.hasRule, rule]
  have star : p.starTrees.filter Tree.isNaming = [] := by
    cases found : p.star with
    | none => simp [starTrees, found]
    | some s =>
      obtain ⟨dot, star⟩ := p.isStar s found
      simp [starTrees, found, Tree.isNaming, Tree.is, dot, star]
  rw [written.children, written.leading_eq]
  simp [Tree.isNaming_leaf (Grammar.isLabel_of_isName p.isName), labelled, handed, star, Function.comp_def, Tree.token]

theorem has_star : cs.any (·.is .star) = p.star.isSome := by
  have plain {l : PathStep} (label : l.isLabel) : l.trees.any (·.is .star) = false := by
    cases l with
    | label dot name isDot isLabel => simp [PathStep.trees, Tree.is, isDot, kind_ne_of_isLabel isLabel (k := .star) rfl]
    | _ => cases label
  have labelled : (labels.flatMap PathStep.trees).any (·.is .star) = false := by
    rw [any_flatMap, any_eq_false]
    exact fun l member => by simp [plain (written.labelled l member)]
  have handed : kids.any (·.is .star) = false := by
    cases written.handed with
    | nothing => rfl
    | @node c _ _ rule _ _ =>
      cases c with
      | leaf => cases rule
      | node => rfl
  have head : (Tree.leaf p.head).is .star = false := by
    simp [Tree.is, kind_ne_of_isLabel (Grammar.isLabel_of_isName p.isName) (k := .star) rfl]
  have star : p.starTrees.any (·.is .star) = p.star.isSome := by
    cases found : p.star with
    | none => simp [starTrees, found]
    | some s => simp [starTrees, found, Tree.is, (p.isStar s found).2]
  simp only [written.children, cons_append, any_cons, any_append, head, labelled, handed, star,
    Bool.false_or]

theorem filter_indirection : cs.filter (·.hasRule .indirection) = kids := by
  have plain {l : PathStep} (label : l.isLabel) : l.trees.filter (·.hasRule .indirection) = [] := by
    cases l with
    | label => rfl
    | _ => cases label
  have labelled : (labels.flatMap PathStep.trees).filter (·.hasRule .indirection) = [] := by
    rw [filter_flatMap, flatMap_eq_nil_iff]
    exact fun l member => plain (written.labelled l member)
  have handed : kids.filter (·.hasRule .indirection) = kids := by
    cases written.handed with
    | nothing => rfl
    | node rule _ _ => simp [Tree.hasRule, rule]
  have star : p.starTrees.filter (·.hasRule .indirection) = [] := by
    cases found : p.star with
    | none => simp [starTrees, found]
    | some s => simp [starTrees, found, Tree.hasRule, Tree.rule?]
  have head : (Tree.leaf p.head).hasRule .indirection = false := rfl
  simp [written.children, head, labelled, handed, star]

end ColumnPath.Written
namespace PathStep

theorem rule_of_mem_indices {s : PathStep} {e : Tree} (member : e ∈ s.indices) : e.rule? = some .aExprOr := by
  cases s with
  | label => cases member
  | subscript _ _ _ _ isIndex _ =>
    obtain rfl := mem_singleton.1 member
    exact isIndex
  | slice _ _ _ _ _ _ isLow _ isHigh _ =>
    obtain rfl | rfl : e = _ ∨ e = _ := by simpa [indices] using member
    · exact isLow
    · exact isHigh

theorem filter_nodes (s : PathStep) : s.trees.filter (!·.isLeaf) = s.indices := by
  have leaf (t : Token) : (Tree.leaf t).isLeaf = true := rfl
  cases s with
  | label => rfl
  | subscript _ _ _ _ isIndex _ => simp [trees, indices, leaf, Grammar.Form.isLeaf_of_rule isIndex]
  | slice _ _ _ _ _ _ isLow _ isHigh _ =>
    simp [trees, indices, leaf, Grammar.Form.isLeaf_of_rule isLow, Grammar.Form.isLeaf_of_rule isHigh]

end PathStep

/-- Only the children that hold the rest of a path have subscripts. -/
theorem Opened.subscripts_filter (ks : List Kid) :
    subscripts ks = subscripts (ks.filter (·.tree.hasRule .indirection)) := by
  induction ks with
  | nil => rfl
  | cons k ks ih => by_cases path : k.tree.hasRule .indirection <;> simp [subscripts, path, ih]

namespace Tree

variable {m : ReadMode}

/-- Expressions in a row are read one after the other. -/
theorem exists_readEach_expr (t : Tree) (sighted : m.blind = false) {es : List Tree}
    (each : ∀ e ∈ es, e.Shaped ∧ e.rule? = some .aExprOr) :
    ∃ xs, es.mapM (·.read m .expr) = .ok xs ∧ readEach (t.opened m).expr (es.map (kid m)) = .ok (.ofList xs) := by
  induction es with
  | nil => exact ⟨[], rfl, rfl⟩
  | cons e es ih =>
    obtain ⟨xs, first, second⟩ := ih fun d member => each d (mem_cons_of_mem e member)
    obtain ⟨shaped, rule⟩ := each e mem_cons_self
    obtain ⟨x, found, _⟩ := (shaped.ready sighted).gives rule (c := .expr) (by decide)
    have here : (t.opened m).expr (e.kid m) = .ok x := by
      simp [Opened.expr, opened, sighted, rule, Rule.isExpression, found]
    refine ⟨x :: xs, ?_, ?_⟩
    · simp [mapM_cons, found, first, bind, Except.bind, pure, Except.pure]
    · simp [readEach, here, second, bind, Except.bind, pure, Except.pure, Phrase.ofList]

/-- The rest of a path is read as its subscripts. -/
theorem exists_read_indirection {c : Tree} {steps : List PathStep} (sighted : m.blind = false) (shaped : c.Shaped)
    (rule : c.rule? = some .indirection) (children : c.children = steps.flatMap PathStep.trees) :
    ∃ xs, (steps.flatMap PathStep.indices).mapM (·.read m .expr) = .ok xs ∧
      c.read m (.many .expr) = .ok (.ofList xs) := by
  have nodes : c.nodes = steps.flatMap PathStep.indices := by
    rw [Tree.nodes, children, filter_flatMap]
    exact flatMap_congr fun s _ => s.filter_nodes
  have each : ∀ e ∈ steps.flatMap PathStep.indices, e.Shaped ∧ e.rule? = some .aExprOr := by
    intro e member
    obtain ⟨s, _, among⟩ := mem_flatMap.1 member
    rw [← nodes] at member
    exact ⟨shaped.child (mem_filter.1 member).1, s.rule_of_mem_indices among⟩
  obtain ⟨xs, read, rows⟩ := exists_readEach_expr c sighted each
  refine ⟨xs, read, ?_⟩
  rw [read_eq]
  change (c.opened m).readExprs = _
  rw [Opened.readExprs, opened_tree, rule]
  change (c.opened m).exprs = _
  rw [Opened.exprs, nodes_opened, nodes, rows]

theorem exists_subscripts_written (sighted : m.blind = false) (shaped : t.Shaped)
    (written : p.Written labels rest kids t.children) :
    ∃ xs, p.indices.mapM (·.read m .expr) = .ok xs ∧ Opened.subscripts (t.opened m).kids = .ok xs := by
  have plain : labels.flatMap PathStep.indices = [] := by
    rw [flatMap_eq_nil_iff]
    intro l member
    have label := written.labelled l member
    cases l with
    | label => rfl
    | _ => cases label
  have indices : p.indices = rest.flatMap PathStep.indices := by
    rw [ColumnPath.indices, written.steps, flatMap_append, plain, nil_append]
  have kept : (t.opened m).kids.filter (·.tree.hasRule .indirection) = kids.map (kid m) := by
    rw [opened_kids, filter_map]
    exact congrArg _ written.filter_indirection
  rw [indices, Opened.subscripts_filter, kept]
  cases written.handed with
  | nothing => exact ⟨[], rfl, rfl⟩
  | @node c _ _ rule _ children =>
    have member : c ∈ t.children := by simp [written.children]
    obtain ⟨xs, read, found⟩ := exists_read_indirection sighted (shaped.child member) rule children
    refine ⟨xs, read, ?_⟩
    simp [Opened.subscripts, hasRule, rule, found, bind, Except.bind, pure, Except.pure, Phrase.toList_ofList]

theorem read_column {xs : List Expr} (rule : t.rule? = some .columnRef)
    (written : p.Written labels rest kids t.children) (found : Opened.subscripts (t.opened m).kids = .ok xs) :
    t.read m .expr = .ok (.column t.span (p.leading.map m.name) p.star.isSome (.ofList xs)) := by
  have names : (t.children.filter isNaming).map (fun c => m.name c.token) = p.leading.map m.name := by
    rw [← written.names_eq, map_map]
    rfl
  rw [read_eq]
  change (t.opened m).readExpr = _
  rw [Opened.readExpr, opened_tree, rule]
  change (t.opened m).columnRef = _
  rw [Opened.columnRef, found, ← names, ← written.has_star]
  rfl

mutual

/-- What goes down from a tree to its children holds of all nodes in it. -/
theorem of_mem_nodesFrom {P : Tree → Prop} (down : ∀ t, P t → ∀ c ∈ t.children, P c) (d : Nat) : (t : Tree) → P t →
    ∀ {k : Nat} {n : Tree}, (k, n) ∈ t.nodesFrom d → P n
  | .leaf _, _, _, _, member => by cases member
  | .node r f l x cs, holds, _, _, member => by
    rw [nodesFrom] at member
    obtain same | inside := mem_cons.1 member
    · cases same
      exact holds
    · exact of_mem_nodesFromAll down (d + 1) cs (down _ holds) inside

theorem of_mem_nodesFromAll {P : Tree → Prop} (down : ∀ t, P t → ∀ c ∈ t.children, P c) (d : Nat) :
    (ts : List Tree) → (∀ t ∈ ts, P t) → ∀ {k : Nat} {n : Tree}, (k, n) ∈ nodesFromAll d ts → P n
  | [], _, _, _, member => by cases member
  | t :: ts, all, _, _, member => by
    rw [nodesFromAll] at member
    obtain first | later := mem_append.1 member
    · exact of_mem_nodesFrom down d t (all t mem_cons_self) first
    · exact of_mem_nodesFromAll down d ts (fun u inside => all u (mem_cons_of_mem t inside)) later

end

end Tree

/-- Every column of a script is written as a path and read from it. Its star is the star of the path and its
subscripts are all those of the path, slices with both ends, in order. Its names are the names in front of the
first bracket, which are all names of the path just if no label comes after a bracket. -/
theorem column_keeps_leading_names {text : String} {t c : Tree} {depth : Nat} (normalize : Bool)
    (parsed : parse text = .ok t) (inside : (depth, c) ∈ t.nodesFrom 0) (rule : c.rule? = some .columnRef) :
    ∃ (p : ColumnPath) (subscripts : List Expr),
      c.children.flatMap Tree.spread = p.trees ∧
      p.indices.mapM (·.read ⟨normalize, false⟩ .expr) = .ok subscripts ∧
      c.read ⟨normalize, false⟩ .expr = .ok (.column c.span (p.leading.map (ReadMode.name ⟨normalize, false⟩))
        p.star.isSome (.ofList subscripts)) ∧
      (p.leading.map (ReadMode.name ⟨normalize, false⟩) = p.names.map (ReadMode.name ⟨normalize, false⟩) ↔
        p.LabelsFirst) := by
  have shaped : c.Shaped := Tree.of_mem_nodesFrom (fun _ shaped _ => shaped.child) 0 t (parse_shaped parsed).1 inside
  have derived : Grammar.Derived text.toList c :=
    Tree.of_mem_nodesFrom (fun _ derived _ => derived.child) 0 t
      (Grammar.parseTokens_derived (parseTokens_of_parse parsed)) inside
  obtain ⟨p, labels, rest, kids, written⟩ := derived.written rule
  obtain ⟨xs, read, found⟩ := Tree.exists_subscripts_written (m := ⟨normalize, false⟩) rfl shaped written
  exact ⟨p, xs, written.spread_eq, read, Tree.read_column rule written found, p.map_leading_eq_iff _⟩

/-- A column with labels, a subscript, a slice and a star. -/
theorem column_keeps_leading_names_of_slice :
    ∃ t ∈ (parse "SELECT count(a.b[0].c[1:2].*) FROM a").toOption, ∃ n ∈ t.nodesFrom 0,
      n.2.rule? = some .columnRef ∧ ∃ (p : ColumnPath) (subscripts : List Expr),
        n.2.children.flatMap Tree.spread = p.trees ∧
        n.2.read ⟨true, false⟩ .expr = .ok (.column n.2.span (p.leading.map (ReadMode.name ⟨true, false⟩))
          p.star.isSome (.ofList subscripts)) := by
  generalize same : parse "SELECT count(a.b[0].c[1:2].*) FROM a" = parsed
  have column : ∃ t ∈ parsed.toOption, ∃ n ∈ t.nodesFrom 0, n.2.rule? = some .columnRef := by
    rw [← same]
    decide +kernel
  obtain ⟨t, found, ⟨depth, c⟩, inside, rule⟩ := column
  cases parsed with
  | error => cases found
  | ok u =>
    cases found
    obtain ⟨p, xs, spread, -, read, -⟩ := column_keeps_leading_names true same inside rule
    exact ⟨t, rfl, (depth, c), inside, rule, p, xs, spread, read⟩

/-- The names of a column. -/
def Phrase.columnNames : Expr → List String
  | .column _ names _ _ => names
  | _ => []

/-- The label behind the subscript is written, but it is no name of the column. -/
theorem label_after_subscript_is_dropped :
    ∃ t ∈ (parse "SELECT c.orders[0].key FROM t c").toOption, ∃ n ∈ t.nodesFrom 0, n.2.rule? = some .columnRef ∧
      n.2.leaves.map (·.raw) = ["c", ".", "orders", "[", "0", "]", ".", "key"] ∧
      (n.2.read ⟨false, false⟩ .expr).toOption.map Phrase.columnNames = some ["c", "orders"] := by
  decide +kernel

end TableLineage
