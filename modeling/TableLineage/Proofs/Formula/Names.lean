import TableLineage.Proofs.Formula.Primary

/-! The names of collations, types and custom operators are read as they are written. -/
namespace TableLineage

open List
open Grammar (Symbol Look Step Part Class)
open Grammar.Look (isKey nextKey next dotLabel)

variable {source : List Char} {enter : Symbol → Step} {ts rest : List Token} {c : Grammar.Class}

/-- A loop that reads the written form of one thing after another. -/
theorem Grammar.Step.Repeats.each {α : Type} {write : α → List Lexeme} {step : Step} {l : Look} (some : rest ≠ [])
    (stopped : l.holds rest = false) {xs : List α}
    (one : ∀ x ∈ xs, ∀ us more, us.map Token.toLexeme = write x → more ≠ [] →
      us ≠ [] ∧ l.holds (us ++ more) = true ∧ step.Yields us more (us.map .leaf))
    (same : ts.map Token.toLexeme = xs.flatMap write) : Step.Repeats l step ts rest (ts.map .leaf) := by
  induction xs generalizing ts with
  | nil =>
    obtain rfl : ts = [] := by simpa using same
    exact .stop stopped
  | cons x xs ih =>
    obtain ⟨us, vs, rfl, first, others⟩ := map_eq_append_iff.1 (same.trans flatMap_cons)
    obtain ⟨nonempty, goes, yields⟩ := one x (by simp) us (vs ++ rest) first (by simp [some])
    have tail := ih (fun y member => one y (mem_cons_of_mem x member)) others
    rw [map_append]
    exact .step goes nonempty yields tail

theorem Grammar.Part.Yields.two {a b : Token} (first : a.kind ≠ .illegal) (second : b.kind ≠ .illegal)
    (some : rest ≠ []) : Part.Yields source enter Part.two [a, b] rest ([a, b].map .leaf) :=
  .seq (.take first (by simp)) (.take second some)

theorem Atom.known {fits : Lexeme → Bool} {a : Atom fits} {t : Token} (same : t.toLexeme = a.lexeme) :
    t.kind ≠ .illegal := by
  have known := Lexeme.kind_ne_illegal a.whole
  rwa [← same] at known

theorem Atom.holds {fits : Lexeme → Bool} {a : Atom fits} {t : Token} (same : t.toLexeme = a.lexeme) :
    fits t.toLexeme = true := by
  rw [same, a.fit]

variable (source enter) in
theorem repeats_dottedPath {path : List Label} (same : ts.map Token.toLexeme = dottedPath path) (some : rest ≠ [])
    (stopped : dotLabel.holds rest = false) :
    Step.Repeats dotLabel (Part.two.run source enter) ts rest (ts.map .leaf) := by
  refine .each some stopped (fun x _ us more written nonempty => ?_) same
  obtain ⟨dot, _, rfl, mark, single⟩ := map_eq_cons_iff.1 written
  obtain ⟨label, rfl, name⟩ := map_eq_singleton_iff.1 single
  have kind : dot.kind = .dot := congrArg Lexeme.kind mark
  have fit : label.isLabel = true := Atom.holds name
  refine ⟨by simp, ?_, Part.Yields.two (by simp [kind]) (Atom.known name) nonempty⟩
  simp [dotLabel, Look.holds, Class.holds, Grammar.peek, kind, fit]

/-- The first token is none of a class. -/
def Shuns (c : Grammar.Class) (ts : List Token) : Prop := (Look.ahead 0 c).holds ts = false

theorem Shuns.both {l : Look} (shuns : Shuns c ts) : (Look.both (.ahead 0 c) l).holds ts = false :=
  Bool.and_eq_false_imp.2 fun holds => absurd (shuns.symm.trans holds) Bool.false_ne_true

/-- What ends every expression does not go on with a name. -/
theorem Ends.shuns (ends : Ends .primary rest)
    (among : ∀ l, c.holds l = true → (Class.anyOf [.dot, .lbracket, .lparen, .string, .keyword .WITH]).holds l = true ∨
      (Class.amongWords Symbol.typeWords).holds l = true ∨ l.isWord "without" = true) : Shuns c rest := by
  have stops := ends.stops .primary (Nat.le_refl _)
  refine Bool.eq_false_iff.2 fun holds => Bool.eq_false_iff.1 stops ?_
  rcases among _ holds with mark | word | outside
  · exact Bool.or_eq_true_iff.2 (.inl mark)
  · exact Bool.or_eq_true_iff.2 (.inr (Bool.or_eq_true_iff.2 (.inl word)))
  · exact Bool.or_eq_true_iff.2 (.inr (Bool.or_eq_true_iff.2 (.inr outside)))

theorem Ends.shuns_kind {k : Kind} (ends : Ends .primary rest)
    (among : k ∈ [Kind.dot, .lbracket, .lparen, .string, .keyword .WITH]) : Shuns (.kind k) rest := by
  refine ends.shuns fun l holds => .inl ?_
  have kind : l.kind = k := of_decide_eq_true holds
  simpa [Class.holds, kind] using among

/-! ### Collations and operators -/

theorem Collation.yields (name : Collation) (same : ts.map Token.toLexeme = name.lexemes) (spelled : Spelled source ts)
    (ends : Ends .primary rest) (d : Nat) :
    ∃ t, (Symbol.run source (d + 1) .anyName).Yields ts rest [t] ∧ t.rule? = some .anyName ∧
      t.text = Lexeme.spaced name.lexemes := by
  have some : ts ≠ [] := by
    rintro rfl
    cases name <;> cases same
  refine ⟨.covering source .anyName ts (ts.map .leaf), Part.Yields.node ?_ some, rfl, ?_⟩
  · cases name with
    | string text =>
      obtain ⟨t, rfl, here⟩ := map_eq_singleton_iff.1 same
      have kind : t.kind = .string := of_decide_eq_true (Atom.holds here)
      exact .branch_pos (by simp [kind]) (.take (by simp [kind]) ends.more)
    | name head path =>
      obtain ⟨t, us, rfl, here, others⟩ := map_eq_cons_iff.1 same
      have fit : t.isLabel = true := Atom.holds here
      have other : t.kind ≠ .string := by
        intro kind
        simp [Lexeme.isLabel, kind, Kind.isKeyword] at fit
      have first : Part.Yields source (Symbol.run source d) (.need .label (.expected "name")) [t] (us ++ rest)
          [.leaf t] := .need fit (Atom.known here) (by simp [ends.more])
      have path := repeats_dottedPath source (Symbol.run source d) others ends.more
        (ends.shuns_kind (k := .dot) (by decide)).both
      exact .branch_neg (by simp [other]) (.seq first (.loop path))
  · rw [Tree.text_covering spelled some, same]

theorem CustomSign.tokens_ne_nil (sign : CustomSign) (same : ts.map Token.toLexeme = sign.lexemes) : ts ≠ [] := by
  rintro rfl
  cases sign <;> cases same

variable (source) in
theorem CustomSign.yields (sign : CustomSign) (same : ts.map Token.toLexeme = sign.lexemes) (some : rest ≠ [])
    (d : Nat) : ∃ t, (Symbol.run source (d + 1) .qualOp).Yields ts rest [t] ∧ t.rule? = .some .qualOp ∧
      Opened.operatorText t = sign.text := by
  have nonempty := sign.tokens_ne_nil same
  refine ⟨.covering source .qualOp ts (ts.map .leaf), Part.Yields.node ?_ nonempty, rfl, ?_⟩
  · cases sign with
    | plain sign =>
      obtain ⟨t, rfl, here⟩ := map_eq_singleton_iff.1 same
      have kind : t.kind = .op := of_decide_eq_true (Atom.holds here)
      exact .branch_pos (by simp [kind]) (.take (by simp [kind]) some)
    | qualified path sign =>
      obtain ⟨word, _, rfl, mark, after⟩ := map_eq_cons_iff.1 same
      obtain ⟨left, _, rfl, opening, inside⟩ := map_eq_cons_iff.1 after
      obtain ⟨schema, _, rfl, names, signed⟩ := map_eq_append_iff.1 inside
      obtain ⟨op, _, rfl, here, closed⟩ := map_eq_cons_iff.1 signed
      obtain ⟨right, rfl, closing⟩ := map_eq_singleton_iff.1 closed
      have operator : word.kind = .keyword .OPERATOR := congrArg Lexeme.kind mark
      have opens : left.kind = .lparen := congrArg Lexeme.kind opening
      have closes : right.kind = .rparen := congrArg Lexeme.kind closing
      have fit : Class.sign.holds op.toLexeme = true := Atom.holds here
      have stopped : (Look.both (.ahead 0 .label) (next .dot)).holds (op :: right :: rest) = false := by
        have last : (next .dot).holds (op :: right :: rest) = false := by
          simp [Look.next, Look.holds, Class.holds, Grammar.peek, closes]
        rw [Look.holds, last, Bool.and_false]
      have path : Step.Repeats (.both (.ahead 0 .label) (next .dot)) (Part.two.run source (Symbol.run source d)) schema
          ([op, right] ++ rest) (schema.map .leaf) := by
        refine .each (by simp) stopped (fun x _ us more written nonempty => ?_) names
        obtain ⟨label, _, rfl, name, single⟩ := map_eq_cons_iff.1 written
        obtain ⟨dot, rfl, mark⟩ := map_eq_singleton_iff.1 single
        have kind : dot.kind = .dot := congrArg Lexeme.kind mark
        have fit : label.isLabel = true := Atom.holds name
        refine ⟨by simp, ?_, Part.Yields.two (Atom.known name) (by simp [kind]) nonempty⟩
        simp [Look.next, Look.holds, Class.holds, Grammar.peek, kind, fit]
      have signed : Part.Yields source (Symbol.run source d)
          (.seq (.need .sign (.expected "operator")) (Part.tok .rparen)) [op, right] rest [.leaf op, .leaf right] :=
        .seq (.need fit (Atom.known here) (by simp)) (.tok closes (by simp) some)
      have inside := Part.Yields.seq (.tok opens (by simp) (by simp)) (.seq (.loop path) signed)
      have all := Part.Yields.seq (.tok operator (by simp) (by simp)) inside
      rw [map_cons, map_cons, map_append]
      exact .branch_neg (by simp [operator]) all
  · change String.join ((ts.map Tree.leaf).map fun c => c.token.raw) = _
    rw [CustomSign.text, ← same, map_map, map_map]
    rfl

/-! ### Types -/

namespace TypeName

variable {xs : List (Atom Lexeme.isNumber)} {n : Nat}

theorem exists_lists {x : Atom Lexeme.isNumber}
    (same : ts.map Token.toLexeme = x.lexeme :: xs.flatMap fun y => [Kind.comma.lexeme, y.lexeme])
    (spelled : Spelled source ts) : ∃ es, Lists source ts es := by
  have number (t : Token) (x : Atom Lexeme.isNumber) (here : t.toLexeme = x.lexeme) (spelled : Spelled source [t]) :
      ∃ e, Stands source .or [t] e := by
    let value : Atom Lexeme.isLiteral := ⟨x.lexeme, x.whole, by simp [Lexeme.isLiteral, x.fit]⟩
    have kind : t.kind = .number := of_decide_eq_true (Atom.holds here)
    have stands : Stands source .primary [t] (.constant value) := .constant here spelled
    exact ⟨_, stands.lower rfl ⟨.primary, by rw [kind]; rfl, Nat.le_refl _⟩ (by decide)⟩
  induction xs generalizing x ts with
  | nil =>
    obtain ⟨t, rfl, here⟩ := map_eq_singleton_iff.1 same
    obtain ⟨e, stands⟩ := number t x here spelled
    exact ⟨_, .last stands⟩
  | cons y ys ih =>
    obtain ⟨t, _, rfl, here, after⟩ := map_eq_cons_iff.1 same
    obtain ⟨comma, us, rfl, mark, others⟩ := map_eq_cons_iff.1 after
    obtain ⟨e, stands⟩ := number t x here (spelled.part ⟨[], comma :: us, rfl⟩)
    obtain ⟨es, lists⟩ := ih others (spelled.part ⟨[t, comma], [], by simp⟩)
    exact ⟨_, .cons stands mark lists⟩

theorem yields_arguments (same : ts.map Token.toLexeme = listed xs) (spelled : Spelled source ts) (some : rest ≠ [])
    (stopped : Shuns (.kind .lparen) rest) {d : Nat} (deep : 32 * ts.length ≤ d) :
    ∃ kids, Part.Yields source (Symbol.run source d)
      (Part.opt (Look.is .lparen) (Symbol.parens (.call .exprList))) ts rest kids := by
  cases xs with
  | nil =>
    obtain rfl := map_eq_nil_iff.1 same
    exact ⟨[], .branch_neg stopped .done⟩
  | cons x xs =>
    obtain ⟨left, _, rfl, opening, after⟩ := map_eq_cons_iff.1 same
    obtain ⟨us, _, rfl, row, closed⟩ := map_eq_append_iff.1 after
    obtain ⟨right, rfl, closing⟩ := map_eq_singleton_iff.1 closed
    have opens : left.kind = .lparen := congrArg Lexeme.kind opening
    have closes : right.kind = .rparen := congrArg Lexeme.kind closing
    obtain ⟨es, lists⟩ := exists_lists row (spelled.part ⟨[left], [right], by simp⟩)
    have nonempty : us ≠ [] := by
      rintro rfl
      cases row
    rw [length_cons, length_append] at deep
    have ending : Ends .or ([right] ++ rest) := .of_mark closing (by decide) rfl
    obtain ⟨t, list, _⟩ := lists.exprList nonempty ending (by simp [closes]) (d := d) (by simp at deep; omega)
    refine ⟨_, .branch_pos (by simp [opens]) (.seq (.tok opens (by simp) (by simp)) (.seq (.call list)
      (.tok closes (by simp) some)))⟩

variable (source enter) in
theorem yields_zone {zone : Option Bool} (same : ts.map Token.toLexeme = zoned zone) (some : rest ≠ [])
    (stopped : (Look.either (isKey .WITH) (.ahead 0 (.word "without"))).holds rest = false) :
    Part.Yields source enter
      (Part.opt (.both (.either (isKey .WITH) (.ahead 0 (.word "without"))) (nextKey .TIME))
        (.seq Part.two (Part.key .ZONE))) ts rest (ts.map .leaf) := by
  cases zone with
  | none =>
    obtain rfl := map_eq_nil_iff.1 same
    exact .branch_neg (Bool.and_eq_false_imp.2 fun holds => absurd (stopped.symm.trans holds) Bool.false_ne_true) .done
  | some present =>
    obtain ⟨first, _, rfl, word, after⟩ := map_eq_cons_iff.1 same
    obtain ⟨time, _, rfl, second, last⟩ := map_eq_cons_iff.1 after
    obtain ⟨mark, rfl, third⟩ := map_eq_singleton_iff.1 last
    have timed : time.kind = .keyword .TIME := congrArg Lexeme.kind second
    have zoned : mark.kind = .keyword .ZONE := congrArg Lexeme.kind third
    have known : first.kind ≠ .illegal := by
      rw [word]
      cases present <;> decide
    have ahead : (Look.either (isKey .WITH) (.ahead 0 (.word "without"))).holds ([first, time, mark] ++ rest) =
        true := by
      change (decide (first.kind = .keyword .WITH) || first.isWord "without") = true
      rw [word]
      cases present <;> decide +kernel
    have goes : (Look.both (.either (isKey .WITH) (.ahead 0 (.word "without"))) (nextKey .TIME)).holds
        ([first, time, mark] ++ rest) = true := by
      refine Bool.and_eq_true_iff.2 ⟨ahead, ?_⟩
      simp [nextKey, Look.next, Look.holds, Class.holds, Grammar.peek, timed]
    have pair : Part.Yields source enter Part.two [first, time] ([mark] ++ rest) [.leaf first, .leaf time] :=
      .two known (by simp [timed]) (by simp)
    exact .branch_pos goes (.seq pair (.tok zoned (by simp) some))

variable (source enter) in
theorem repeats_arrays
    (same : ts.map Token.toLexeme = (List.replicate n [Kind.lbracket.lexeme, Kind.rbracket.lexeme]).flatten)
    (some : rest ≠ []) (stopped : Shuns (.kind .lbracket) rest) :
    Step.Repeats (.both (Look.is .lbracket) (next .rbracket)) (Part.two.run source enter) ts rest (ts.map .leaf) := by
  have pairs : (List.replicate n [Kind.lbracket.lexeme, Kind.rbracket.lexeme]).flatten =
      (List.replicate n ()).flatMap fun _ => [Kind.lbracket.lexeme, Kind.rbracket.lexeme] := by
    rw [flatMap_def, map_replicate]
  refine .each some stopped.both (fun _ _ us more written nonempty => ?_) (same.trans pairs)
  obtain ⟨left, _, rfl, opening, single⟩ := map_eq_cons_iff.1 written
  obtain ⟨right, rfl, closing⟩ := map_eq_singleton_iff.1 single
  have opens : left.kind = .lbracket := congrArg Lexeme.kind opening
  have closes : right.kind = .rbracket := congrArg Lexeme.kind closing
  refine ⟨by simp, ?_, Part.Yields.two (by simp [opens]) (by simp [closes]) nonempty⟩
  simp [Look.next, Look.holds, Class.holds, Grammar.peek, opens, closes]

variable (source enter) in
theorem repeats_words {words : List (Atom (Class.amongWords Symbol.typeWords).holds)}
    (same : ts.map Token.toLexeme = words.map (·.lexeme)) (some : rest ≠ [])
    (stopped : Shuns (.amongWords Symbol.typeWords) rest) :
    Step.Repeats (.ahead 0 (.amongWords Symbol.typeWords)) (Part.take.run source enter) ts rest (ts.map .leaf) := by
  have singles : words.map (·.lexeme) = words.flatMap fun w => [w.lexeme] := map_eq_flatMap
  refine .each some stopped (fun w _ us more written nonempty => ?_) (same.trans singles)
  obtain ⟨t, rfl, here⟩ := map_eq_singleton_iff.1 written
  exact ⟨by simp, Atom.holds here, Step.Yields.take (Atom.known here) nonempty⟩

/-- Which part of a type a lexeme starts: the path, the words, the arguments, the time zone, the
arrays, or none. -/
def place (l : Lexeme) : Nat :=
  if (Class.kind .dot).holds l then 0
  else if (Class.amongWords Symbol.typeWords).holds l then 1
  else if (Class.kind .lparen).holds l then 2
  else if (Class.kind (.keyword .WITH)).holds l || (Class.word "without").holds l then 3
  else if (Class.kind .lbracket).holds l then 4
  else 5

/-- No part of a type before the `n`th one starts here. -/
def After (n : Nat) (ts : List Token) : Prop := n ≤ place (Grammar.peek ts 0)

theorem After.append {m : Nat} {us : List Token} {ls : List Lexeme} (after : After m ts)
    (same : us.map Token.toLexeme = ls) (first : ∀ l ∈ ls.head?, n ≤ place l) (below : n ≤ m) : After n (us ++ ts) := by
  cases us with
  | nil => exact Nat.le_trans below after
  | cons t us =>
    subst same
    exact first _ rfl

theorem after_of_ends (ends : Ends .primary rest) : After 5 rest := by
  have dot := ends.shuns_kind (k := .dot) (by decide)
  have word := ends.shuns (c := .amongWords Symbol.typeWords) fun l holds => .inr (.inl holds)
  have paren := ends.shuns_kind (k := .lparen) (by decide)
  have inside := ends.shuns_kind (k := .keyword .WITH) (by decide)
  have outside := ends.shuns (c := .word "without") fun l holds => .inr (.inr holds)
  have bracket := ends.shuns_kind (k := .lbracket) (by decide)
  simp only [Shuns, Look.holds] at dot word paren inside outside bracket
  simp [After, place, dot, word, paren, inside, outside, bracket]

theorem After.shuns (after : After (n + 1) ts) (early : ∀ l, c.holds l = true → place l ≤ n) : Shuns c ts :=
  Bool.eq_false_iff.2 fun holds => absurd after (Nat.not_le.2 (Nat.lt_succ_of_le (early _ holds)))

theorem place_words {words : List (Atom (Class.amongWords Symbol.typeWords).holds)} :
    ∀ l ∈ (words.map (·.lexeme)).head?, 1 ≤ place l := by
  intro l member
  obtain ⟨w, _, rfl⟩ := mem_map.1 (mem_of_mem_head? member)
  have fit := w.fit
  have kind : w.lexeme.kind = .ident := by
    simp only [Class.holds, Bool.and_eq_true, decide_eq_true_eq] at fit
    exact fit.1.1
  have dot : (Class.kind .dot).holds w.lexeme = false := by simp [Class.holds, kind]
  simp [place, dot, fit]

theorem place_listed : ∀ l ∈ (listed xs).head?, 2 ≤ place l := by
  have bound : 2 ≤ place Kind.lparen.lexeme := by decide +kernel
  cases xs with
  | nil => simp [listed]
  | cons x xs => simpa [listed] using bound

theorem place_zoned {zone : Option Bool} : ∀ l ∈ (zoned zone).head?, 3 ≤ place l := by
  have outside : 3 ≤ place without := by decide +kernel
  have inside : 3 ≤ place (Kind.keyword .WITH).lexeme := by decide +kernel
  match zone with
  | none => simp [zoned]
  | some false => simpa [zoned] using outside
  | some true => simpa [zoned] using inside

theorem place_arrays :
    ∀ l ∈ (List.replicate n [Kind.lbracket.lexeme, Kind.rbracket.lexeme]).flatten.head?, 4 ≤ place l := by
  have bound : 4 ≤ place Kind.lbracket.lexeme := by decide +kernel
  cases n with
  | zero => simp
  | succ n => simpa [replicate_succ] using bound

/-- The parts of a type one after the other; none of them goes on with the one before. -/
theorem yields (type : TypeName) (same : ts.map Token.toLexeme = type.lexemes) (spelled : Spelled source ts)
    (ends : Ends .primary rest) {d : Nat} (deep : 32 * ts.length ≤ d) :
    ∃ t, (Symbol.run source d .typename).Yields ts rest [t] ∧ t.rule? = some .typename ∧
      t.text = Lexeme.spaced type.lexemes := by
  have text := Tree.text_covering spelled (by rintro rfl; cases same) .typename
  rw [same] at text
  obtain ⟨head, _, rfl, here, afterHead⟩ := map_eq_cons_iff.1 same
  obtain ⟨path, _, rfl, dots, afterPath⟩ := map_eq_append_iff.1 afterHead
  obtain ⟨words, _, rfl, further, afterWords⟩ := map_eq_append_iff.1 afterPath
  obtain ⟨arguments, _, rfl, list, afterList⟩ := map_eq_append_iff.1 afterWords
  obtain ⟨zone, brackets, rfl, zones, arrays⟩ := map_eq_append_iff.1 afterList
  simp only [length_cons, length_append] at deep
  obtain ⟨d, rfl⟩ : ∃ n, d = n + 1 := ⟨d - 1, by omega⟩
  have more (us : List Token) : us ++ rest ≠ [] := by simp [ends.more]
  have past5 := after_of_ends ends
  have past4 : After 4 (brackets ++ rest) := past5.append arrays place_arrays (by decide)
  have past3 : After 3 (zone ++ brackets ++ rest) := by
    rw [append_assoc]
    exact past4.append zones place_zoned (by decide)
  have past2 : After 2 (arguments ++ (zone ++ brackets) ++ rest) := by
    rw [append_assoc]
    exact past3.append list place_listed (by decide)
  have past1 : After 1 (words ++ (arguments ++ (zone ++ brackets)) ++ rest) := by
    rw [append_assoc]
    exact past2.append further place_words (by decide)
  have zoneEnd : (Look.either (isKey .WITH) (.ahead 0 (.word "without"))).holds (brackets ++ rest) = false :=
    Bool.or_eq_false_iff.2 ⟨past4.shuns (by grind [place]), past4.shuns (c := .word "without") (by grind [place])⟩
  have label : Class.label.holds head.toLexeme = true := Atom.holds here
  have first : Part.Yields source (Symbol.run source d) (.need .label (.expected "type name")) [head]
      (path ++ (words ++ (arguments ++ (zone ++ brackets))) ++ rest) [.leaf head] :=
    .need label (Atom.known here) (more _)
  have second := repeats_dottedPath source (Symbol.run source d) dots (more _)
    (past1.shuns (c := .kind .dot) (by grind [place])).both
  have third := repeats_words source (Symbol.run source d) further (more _)
    (past2.shuns (by grind [place]))
  have inside : Spelled source arguments :=
    spelled.part ⟨head :: (path ++ words), zone ++ brackets, by simp⟩
  obtain ⟨kids, fourth⟩ := yields_arguments (d := d) list inside (more _) (past3.shuns (by grind [place])) (by omega)
  have fifth := yields_zone source (Symbol.run source d) zones (more _) zoneEnd
  have sixth := repeats_arrays source (Symbol.run source d) arrays ends.more
    (past5.shuns (by grind [place]))
  exact ⟨_, Part.Yields.node (.seq first (.seq (.loop second) (.seq (.loop third) (.seq fourth
    (.seq fifth (.loop sixth)))))) (cons_ne_nil _ _), rfl, text _⟩

end TypeName

end TableLineage
