import TableLineage.Config.Basic
import TableLineage.Proofs.Service.Saving
import TableLineage.QueryLog.Lineage

/-! Malformed patterns. Whether a pattern is malformed does not depend on the name that it is tried on, though the way
through the pattern does: stars are tried at places that the name gives, and a chunk that does not fit ends the search
for the others. -/
namespace TableLineage

open List

namespace Glob

/-! ### Well-formed patterns -/

/-- A character of a class as it is written. -/
inductive Sign : List Char → Prop
  | bare {c} (plain : c ∉ ['\\', '-', ']']) : Sign [c]
  | escaped (c) : Sign ['\\', c]

inductive Interval : List Char → Prop
  | one {u} (sign : Sign u) : Interval u
  | between {u v} (low : Sign u) (high : Sign v) : Interval (u ++ '-' :: v)

/-- A star, or what stands for one character of a name. Where a class starts with `^`, this negates it. -/
inductive Term : List Char → Prop
  | bare {c} (plain : c ∉ ['[', '\\']) : Term [c]
  | escaped (c) : Term ['\\', c]
  | oneOf {sign parts} (filled : parts ≠ []) (each : ∀ u ∈ parts, Interval u)
      (negation : sign = ['^'] ∨ sign = [] ∧ parts.flatten.head? ≠ some '^') :
      Term ('[' :: (sign ++ (parts.flatten ++ [']'])))

inductive WellFormed : List Char → Prop
  | nil : WellFormed []
  | cons {u cs} (term : Term u) (rest : WellFormed cs) : WellFormed (u ++ cs)

variable {u cs r : List Char} {n : Nat}

/-! ### Reading terms -/

theorem Sign.head (sign : Sign u) : ∃ c v, u = c :: v ∧ c ≠ '-' ∧ c ≠ ']' := by
  cases sign with
  | bare plain =>
    simp only [mem_cons, not_or] at plain
    exact ⟨_, _, rfl, plain.2.1, plain.2.2.1⟩
  | escaped c => exact ⟨_, _, rfl, by decide, by decide⟩

theorem Interval.head (interval : Interval u) : ∃ c v, u = c :: v ∧ c ≠ '-' ∧ c ≠ ']' := by
  cases interval with
  | one sign => exact sign.head
  | between low _ =>
    obtain ⟨c, v, rfl, other⟩ := low.head
    exact ⟨c, _, rfl, other⟩

theorem classChar_append (sign : Sign u) (more : r ≠ []) : ∃ c, classChar (u ++ r) = some (c, r) := by
  cases sign with
  | @bare c plain =>
    simp only [mem_cons, not_or] at plain
    refine ⟨c, ?_⟩
    rw [cons_append, nil_append, classChar]
    · simp [plain, more]
    · exact fun _ _ same => absurd same plain.1
  | escaped c => exact ⟨c, by simp [classChar, more]⟩

theorem sign_of_classChar {c : Char} (read : classChar cs = some (c, r)) : ∃ u, Sign u ∧ cs = u ++ r := by
  unfold classChar at read
  split at read
  · obtain ⟨_, ⟨⟩⟩ := Option.ite_none_left_eq_some.1 read
    exact ⟨_, .escaped _, rfl⟩
  · obtain ⟨plain, ⟨⟩⟩ := Option.ite_none_left_eq_some.1 read
    simp only [Bool.or_eq_true, decide_eq_true_eq, not_or] at plain
    exact ⟨_, .bare plain.1, rfl⟩
  · cases read

theorem classRange_append (interval : Interval u) (more : r ≠ []) (other : r.head? ≠ some '-') :
    ∃ range, classRange (u ++ r) = some (range, r) := by
  cases interval with
  | one sign =>
    obtain ⟨c, read⟩ := classChar_append sign more
    obtain ⟨d, r, rfl⟩ := exists_cons_of_ne_nil more
    refine ⟨⟨c, c⟩, ?_⟩
    rw [classRange, read]
    split
    · cases ‹_›
    · next same =>
      cases same
      exact absurd rfl other
    · next same =>
      cases same
      rfl
  | @between u v low high =>
    obtain ⟨c, first⟩ := classChar_append low (r := '-' :: (v ++ r)) (by simp)
    obtain ⟨d, second⟩ := classChar_append high more
    exact ⟨⟨c, d⟩, by simp [classRange, first, second]⟩

theorem interval_of_classRange {range : Range} (read : classRange cs = some (range, r)) : ∃ u, Interval u ∧ cs = u ++ r := by
  unfold classRange at read
  split at read
  · cases read
  · next first =>
    obtain ⟨_, second, ⟨⟩⟩ := Option.map_eq_some_iff.1 read
    obtain ⟨u, low, rfl⟩ := sign_of_classChar first
    obtain ⟨v, high, rfl⟩ := sign_of_classChar second
    exact ⟨_, .between low high, by simp⟩
  · next first =>
    cases read
    obtain ⟨u, sign, rfl⟩ := sign_of_classChar first
    exact ⟨u, .one sign, rfl⟩

variable {found : List Range} {parts : List (List Char)}

theorem classRanges_append (found : List Range) (each : ∀ u ∈ parts, Interval u) (filled : found ≠ [] ∨ parts ≠ [])
    (enough : parts.flatten.length < n) : ∃ ranges, classRanges n (parts.flatten ++ ']' :: r) found = some (ranges, r) := by
  induction parts generalizing n found with
  | nil =>
    obtain ⟨n, rfl⟩ := Nat.exists_eq_add_of_lt enough
    obtain ⟨g, found, rfl⟩ := exists_cons_of_ne_nil (filled.resolve_right (by simp))
    exact ⟨_, rfl⟩
  | cons u parts ih =>
    obtain ⟨interval, others⟩ := forall_mem_cons.1 each
    have dash : (parts.flatten ++ ']' :: r).head? ≠ some '-' := by
      cases parts with
      | nil => simp
      | cons v parts =>
        obtain ⟨c, w, rfl, other, _⟩ := (others v mem_cons_self).head
        simpa using other
    obtain ⟨range, read⟩ := classRange_append interval (by simp) dash
    obtain ⟨c, w, rfl, _, close⟩ := interval.head
    obtain ⟨n, rfl⟩ : ∃ m, n = m + 1 := ⟨n - 1, by omega⟩
    have fewer : parts.flatten.length < n := by
      rw [flatten_cons, length_append, length_cons] at enough
      omega
    obtain ⟨ranges, later⟩ := ih (range :: found) others (.inl (cons_ne_nil range found)) fewer
    refine ⟨ranges, ?_⟩
    rw [flatten_cons, append_assoc]
    rw [classRanges]
    · simp only [read, later]
    · exact fun _ _ _ same _ => close (cons.inj same).1

theorem intervals_of_classRanges {ranges : List Range} (read : classRanges n cs found = some (ranges, r)) :
    ∃ parts, (found ≠ [] ∨ parts ≠ []) ∧ (∀ u ∈ parts, Interval u) ∧ cs = parts.flatten ++ ']' :: r := by
  induction n generalizing cs found with
  | zero => cases read
  | succ n ih =>
    unfold classRanges at read
    split at read
    · cases read
      exact ⟨[], by simp, by simp, rfl⟩
    · split at read
      · next first =>
        obtain ⟨u, interval, rfl⟩ := interval_of_classRange first
        obtain ⟨parts, _, each, rfl⟩ := ih read
        exact ⟨u :: parts, by simp, forall_mem_cons.2 ⟨interval, each⟩, by simp⟩
      · cases read

theorem atom_append (term : Term u) (r : List Char) : ∃ a, atom (u ++ r) = some (a, r) := by
  cases term with
  | @bare c plain =>
    simp only [mem_cons, not_or] at plain
    by_cases any : c = '?'
    · exact ⟨.any, by rw [any]; rfl⟩
    · refine ⟨.literal c, ?_⟩
      rw [cons_append, nil_append, atom]
      · exact plain.1
      · exact any
      · exact fun _ _ same => absurd same plain.2.1
      · exact fun same => absurd same plain.2.1
  | escaped c => exact ⟨.literal c, rfl⟩
  | @oneOf sign parts filled each negation =>
    have enough : parts.flatten.length < (parts.flatten ++ ']' :: r).length + 1 := by
      rw [length_append]
      omega
    obtain ⟨ranges, read⟩ := classRanges_append [] each (.inr filled) enough
    obtain rfl | ⟨rfl, other⟩ := negation
    · exact ⟨.oneOf true ranges, by simpa [atom] using read⟩
    · have head : (parts.flatten ++ ']' :: r).head? ≠ some '^' := by
        cases same : parts.flatten with
        | nil => simp
        | cons => simpa [same] using other
      refine ⟨.oneOf false ranges, ?_⟩
      simp only [nil_append, cons_append, append_assoc, atom, if_neg head, decide_eq_false head, read, Option.map_some]

theorem term_of_atom {a : Atom} (read : atom cs = some (a, r)) : ∃ u, Term u ∧ cs = u ++ r := by
  unfold atom at read
  split at read
  · cases read
  · next r' =>
    obtain ⟨_, ranges, ⟨⟩⟩ := Option.map_eq_some_iff.1 read
    obtain ⟨parts, filled, each, same⟩ := intervals_of_classRanges ranges
    split at same
    · next negated =>
      obtain ⟨rest, rfl⟩ := head?_eq_some_iff.1 negated
      exact ⟨_, .oneOf (filled.resolve_left (by simp)) each (.inl rfl), by simpa using same⟩
    · next bare =>
      refine ⟨_, .oneOf (filled.resolve_left (by simp)) each (.inr ⟨rfl, ?_⟩), by simpa using same⟩
      rw [same] at bare
      cases none : parts.flatten with
      | nil => simp
      | cons => simpa [none] using bare
  · cases read
    exact ⟨['?'], .bare (by simp), rfl⟩
  · cases read
    exact ⟨_, .escaped _, rfl⟩
  · cases read
  · next other _ escape last =>
    cases read
    refine ⟨[_], .bare ?_, rfl⟩
    simp only [mem_cons, not_mem_nil, or_false, not_or]
    refine ⟨other, fun same => ?_⟩
    cases r with
    | nil => exact last same rfl
    | cons c r => exact escape c r same rfl

/-! ### Cutting at stars -/

theorem beforeStar_cons {c : Char} (b : Bool) (plain : c ≠ '\\') (r : List Char) : beforeStar b (c :: r) =
    if c = '*' && !b then 0 else beforeStar (if c = '[' then true else if c = ']' then false else b) r + 1 := by
  rw [beforeStar]
  exact fun _ _ same => absurd same plain

theorem Sign.beforeStar_append (sign : Sign u) (r : List Char) :
    beforeStar true (u ++ r) = u.length + beforeStar true r := by
  cases sign with
  | bare plain =>
    simp only [mem_cons, not_or] at plain
    simp [beforeStar_cons, plain, Nat.add_comm]
  | escaped c => simp [beforeStar, Nat.add_comm]

theorem Interval.beforeStar_append (interval : Interval u) (r : List Char) :
    beforeStar true (u ++ r) = u.length + beforeStar true r := by
  cases interval with
  | one sign => exact sign.beforeStar_append r
  | between low high =>
    simp [low.beforeStar_append, high.beforeStar_append, beforeStar_cons]
    omega

theorem beforeStar_flatten (each : ∀ u ∈ parts, Interval u) (r : List Char) :
    beforeStar true (parts.flatten ++ r) = parts.flatten.length + beforeStar true r := by
  induction parts with
  | nil => simp
  | cons u parts ih =>
    obtain ⟨interval, each⟩ := forall_mem_cons.1 each
    rw [flatten_cons, append_assoc, interval.beforeStar_append, ih each, length_append, Nat.add_assoc]

/-- No term but a star itself has a star outside of a class. -/
theorem Term.beforeStar_append (term : Term u) (other : u ≠ ['*']) (r : List Char) :
    beforeStar false (u ++ r) = u.length + beforeStar false r := by
  cases term with
  | @bare c plain =>
    simp only [mem_cons, not_or] at plain
    have star : c ≠ '*' := by simpa using other
    simp [beforeStar_cons, plain, star, Nat.add_comm]
  | escaped c => simp [beforeStar, Nat.add_comm]
  | @oneOf sign parts _ each negation =>
    have close : beforeStar true (parts.flatten ++ ']' :: r) = parts.flatten.length + (beforeStar false r + 1) := by
      rw [beforeStar_flatten each, beforeStar_cons _ (by decide)]
      rfl
    obtain rfl | ⟨rfl, _⟩ := negation
    · simp [beforeStar_cons, close]
      omega
    · simp [beforeStar_cons, close]
      omega

theorem wellFormed_star : WellFormed ('*' :: cs) ↔ WellFormed cs := by
  refine ⟨fun whole => ?_, .cons (.bare (by decide))⟩
  generalize same : '*' :: cs = ds at whole
  cases whole with
  | nil => cases same
  | cons term rest =>
    cases term with
    | bare =>
      cases same
      exact rest
    | escaped | oneOf => cases same

theorem wellFormed_dropWhile (cs : List Char) : WellFormed (cs.dropWhile (· = '*')) ↔ WellFormed cs := by
  induction cs with
  | nil => rfl
  | cons c cs ih =>
    by_cases star : c = '*'
    · subst star
      simpa [wellFormed_star] using ih
    · simp [star]

theorem WellFormed.split (whole : WellFormed cs) :
    WellFormed (cs.take (beforeStar false cs)) ∧ WellFormed (cs.drop (beforeStar false cs)) := by
  induction whole with
  | nil => exact ⟨.nil, .nil⟩
  | @cons u cs term rest ih =>
    by_cases star : u = ['*']
    · subst star
      exact ⟨.nil, .cons term rest⟩
    · rw [term.beforeStar_append star, take_length_add_append, drop_length_add_append]
      exact ⟨.cons term ih.1, ih.2⟩

theorem WellFormed.append {ds : List Char} (first : WellFormed cs) (second : WellFormed ds) : WellFormed (cs ++ ds) := by
  induction first with
  | nil => exact second
  | cons term _ ih =>
    rw [append_assoc]
    exact .cons term ih

/-- The chunks of a pattern are well formed if and only if the pattern is. -/
theorem wellFormed_cut (cs : List Char) : WellFormed cs ↔ WellFormed (cut cs).2.1 ∧ WellFormed (cut cs).2.2 := by
  rw [← wellFormed_dropWhile]
  refine ⟨WellFormed.split, fun ⟨first, second⟩ => ?_⟩
  have whole := first.append second
  rwa [cut, take_append_drop] at whole

theorem beforeStar_pos {c : Char} (other : c ≠ '*') (cs : List Char) : 0 < beforeStar false (c :: cs) := by
  unfold beforeStar
  split
  · cases ‹_›
  · omega
  · next same =>
    cases same
    simp [other]

theorem cut_shorter {c : Char} : (cut (c :: cs)).2.2.length ≤ cs.length := by
  simp only [cut]
  by_cases star : c = '*'
  · subst star
    have fewer := (dropWhile_sublist (l := cs) (· = '*')).length_le
    simp [length_drop]
    omega
  · have some := beforeStar_pos star cs
    simp [star]
    omega

/-- Only behind the last star there is no chunk. -/
theorem cut_last (none : (cut cs).2.1 = []) : (cut cs).2.2 = [] := by
  simp only [cut] at *
  cases body : cs.dropWhile (· = '*') with
  | nil => simp
  | cons c rest =>
    have other := head_dropWhile_not (· = '*') (l := cs) (by simp [body])
    have some := beforeStar_pos (c := c) (by simpa [body] using other) rest
    rw [body, take_eq_nil_iff] at none
    simp at none
    omega

/-! ### Matching -/

theorem atom_shorter {c : Char} {a : Atom} (read : atom (c :: cs) = some (a, r)) : r.length ≤ cs.length := by
  obtain ⟨u, term, same⟩ := term_of_atom read
  have size := congrArg length same
  have filled : 0 < u.length := by cases term <;> simp
  simp only [length_cons, length_append] at size
  omega

theorem wellFormed_cons {c : Char} :
    WellFormed (c :: cs) ↔ ∃ x, atom (c :: cs) = some x ∧ WellFormed x.2 := by
  constructor
  · intro whole
    generalize c :: cs = ds, cons_ne_nil c cs = filled at whole ⊢
    cases whole with
    | nil => exact absurd rfl filled
    | @cons u r term rest =>
      obtain ⟨a, read⟩ := atom_append term r
      exact ⟨(a, r), read, rest⟩
  · rintro ⟨⟨a, r⟩, read, rest⟩
    obtain ⟨u, term, same⟩ := term_of_atom read
    rw [same]
    exact .cons term rest

/-- Where a chunk is tried does not matter. -/
theorem afterChunk_isSome (enough : cs.length ≤ n) (left : Option (List Letter)) :
    (afterChunk n cs left).isSome ↔ WellFormed cs := by
  induction n generalizing cs left with
  | zero =>
    obtain rfl := length_eq_zero_iff.1 (Nat.le_zero.1 enough)
    exact iff_of_true rfl .nil
  | succ n ih =>
    cases cs with
    | nil => exact iff_of_true rfl .nil
    | cons c cs =>
      rw [wellFormed_cons, afterChunk]
      split
      · next a r read =>
        rw [ih (Nat.le_trans (atom_shorter read) (Nat.le_of_succ_le_succ enough))]
        simp [read]
      · next read => simp [read]

theorem place_isSome (chunk : List Char) (isLast : Bool) (ls : List Letter) (more : List (List Letter)) :
    (place chunk isLast (ls :: more)).isSome ↔ WellFormed chunk := by
  have read := afterChunk_isSome (Nat.le_refl chunk.length)
  by_cases formed : WellFormed chunk
  · refine iff_of_true ?_ formed
    induction ls :: more with
    | nil => rfl
    | cons ls more ih =>
      rw [place]
      split
      · next none => simp [← read (some ls), none] at formed
      · exact ih
      · split
        · rfl
        · exact ih
  · have none : afterChunk chunk.length chunk (some ls) = none := by simpa using mt (read (some ls)).1 formed
    rw [place, none]
    exact iff_of_false Bool.false_ne_true formed

theorem readOn_isSome (enough : cs.length ≤ n) : (readOn n cs).isSome ↔ WellFormed cs := by
  induction n generalizing cs with
  | zero =>
    obtain rfl := length_eq_zero_iff.1 (Nat.le_zero.1 enough)
    exact iff_of_true rfl .nil
  | succ n ih =>
    cases cs with
    | nil => exact iff_of_true rfl .nil
    | cons c cs =>
      simp only [readOn]
      rw [wellFormed_cut, ← afterChunk_isSome (Nat.le_refl _) (some []),
        ← ih (Nat.le_trans cut_shorter (Nat.le_of_succ_le_succ enough))]
      cases afterChunk _ _ (some []) <;> simp

theorem run_isSome (enough : cs.length ≤ n) (ls : List Letter) : (run n cs ls).isSome ↔ WellFormed cs := by
  induction n generalizing cs ls with
  | zero =>
    obtain rfl := length_eq_zero_iff.1 (Nat.le_zero.1 enough)
    exact iff_of_true rfl .nil
  | succ n ih =>
    cases cs with
    | nil => exact iff_of_true rfl .nil
    | cons c cs =>
      have fewer : (cut (c :: cs)).2.2.length ≤ n := Nat.le_trans cut_shorter (Nat.le_of_succ_le_succ enough)
      simp only [run]
      split
      · next last =>
        have none := (Bool.and_eq_true_iff.1 last).2
        rw [List.isEmpty_iff] at none
        rw [wellFormed_cut, none, cut_last none]
        exact iff_of_true rfl ⟨.nil, .nil⟩
      · rw [wellFormed_cut, ← place_isSome _ (cut (c :: cs)).2.2.isEmpty ls
          (if (cut (c :: cs)).1 then afterStar ls else [])]
        split
        · next placed => simp [placed]
        · next placed => simp [placed, ih fewer]
        · next placed => simp [placed, readOn_isSome fewer]

/-- Whether a pattern is malformed does not depend on the name. -/
theorem attempt_isSome (text name : String) : (attempt text name).isSome ↔ WellFormed text.toList :=
  run_isSome (Nat.le_refl _) _

end Glob

/-! ### Lists of patterns -/

/-- The pattern is malformed, and those in front of it are not. -/
def FirstMalformed (texts : List String) (text : String) : Prop :=
  ∃ before after, texts = before ++ text :: after ∧ (∀ p ∈ before, Glob.WellFormed p.toList) ∧
    ¬Glob.WellFormed text.toList

/-- The patterns have the texts, and what they leave out of a record is just what some text of them matches. -/
structure LeaveOut (texts : List String) (patterns : List Glob) : Prop where
  named : patterns.map Glob.text = texts
  tried : ∀ p ∈ texts, ∀ name, ∃ fits, Glob.attempt p name = some fits
  names (ns : Names) (n : String) :
    n ∈ (ns.exclude patterns).keys ↔ n ∈ ns.keys ∧ ∀ p ∈ texts, Glob.attempt p n = some false
  sinks (r : Record) (n : String) (ns : Names) : (r.exclude patterns).sinks.get? n = some ns ↔
    (∀ p ∈ texts, Glob.attempt p n = some false) ∧ ∃ all, r.sinks.get? n = some all ∧ ns = all.exclude patterns
  sources (r : Record) : (r.exclude patterns).sources = r.sources.exclude patterns

variable {texts : List String} {patterns : List Glob}

theorem firstMalformed_cons {p text : String} : FirstMalformed (p :: texts) text ↔
    (¬Glob.WellFormed p.toList ∧ text = p) ∨ (Glob.WellFormed p.toList ∧ FirstMalformed texts text) := by
  constructor
  · rintro ⟨_ | ⟨q, before⟩, after, same, formed, malformed⟩
    · cases same
      exact .inl ⟨malformed, rfl⟩
    · cases same
      obtain ⟨first, formed⟩ := forall_mem_cons.1 formed
      exact .inr ⟨first, before, after, rfl, formed, malformed⟩
  · rintro (⟨malformed, rfl⟩ | ⟨first, before, after, rfl, formed, malformed⟩)
    · exact ⟨[], texts, rfl, by simp, malformed⟩
    · exact ⟨p :: before, after, rfl, forall_mem_cons.2 ⟨first, formed⟩, malformed⟩

theorem readPatterns_cons (p : String) (ps : List String) : readPatterns (p :: ps) =
    if tried : (Glob.attempt p "").isSome then (readPatterns ps).map (⟨p, tried⟩ :: ·) else .error ⟨p⟩ := by
  rw [readPatterns, Glob.ofText?]
  split
  · next none => simp_all
  · next g found =>
    obtain ⟨tried, ⟨⟩⟩ := Option.dite_none_right_eq_some.1 found
    rw [dif_pos tried]
    cases readPatterns ps <;> rfl

theorem readPatterns_error_iff {e : BadPattern} : readPatterns texts = .error e ↔ FirstMalformed texts e.text := by
  induction texts with
  | nil =>
    refine iff_of_false (fun wrong => by cases wrong) ?_
    rintro ⟨before, after, same, _⟩
    simp at same
  | cons p ps ih =>
    rw [firstMalformed_cons, ← ih, ← Glob.attempt_isSome p "", readPatterns_cons]
    split
    · next tried => cases readPatterns ps <;> simp [tried, Except.map]
    · next none =>
      obtain ⟨text⟩ := e
      simp [none, eq_comm]

theorem texts_of_readPatterns (read : readPatterns texts = .ok patterns) : patterns.map Glob.text = texts := by
  induction texts generalizing patterns with
  | nil =>
    cases read
    rfl
  | cons p ps ih =>
    rw [readPatterns_cons] at read
    split at read
    · cases others : readPatterns ps with
      | error e => simp [others, Except.map] at read
      | ok gs =>
        rw [others] at read
        cases read
        exact congrArg (p :: ·) (ih others)
    · cases read

theorem leaveOut_of_readPatterns (read : readPatterns texts = .ok patterns) : LeaveOut texts patterns := by
  have named := texts_of_readPatterns read
  have tried (p) (member : p ∈ texts) (name : String) : ∃ fits, Glob.attempt p name = some fits := by
    obtain ⟨g, _, rfl⟩ := mem_map.1 (named ▸ member)
    rw [← Option.isSome_iff_exists, Glob.attempt_isSome, ← Glob.attempt_isSome g.text ""]
    exact g.tried
  have kept (n : String) : excludes patterns n = false ↔ ∀ p ∈ texts, Glob.attempt p n = some false := by
    rw [excludes, any_eq_false, ← named, forall_mem_map]
    refine forall₂_congr fun g member => ?_
    obtain ⟨fits, found⟩ := tried g.text (named ▸ mem_map_of_mem member) n
    simp [Glob.admits, found]
  refine ⟨named, tried, fun ns n => ?_, fun r n ns => ?_, fun r => rfl⟩
  · rw [KeyMap.mem_keys, KeyMap.mem_keys, ← kept, KeyMap.contains, Names.exclude, KeyMap.get?_filter]
    cases excludes patterns n <;> simp [KeyMap.contains]
  · rw [← kept, Record.exclude, KeyMap.get?_map, KeyMap.get?_filter]
    cases excludes patterns n <;> simp [eq_comm]

theorem Extraction.ofText_pattern_iff {o : ExtractOptions} {text : String} {e : BadPattern} :
    ofText o text = .error (.pattern e) ↔ FirstMalformed o.exclude e.text := by
  rw [← readPatterns_error_iff, ofText]
  cases readPatterns o.exclude with
  | error e' => simp
  | ok patterns => cases Script.ofText o.normalize text <;> simp

theorem Service.answerWith_status {target : Url.Target} {f : Format} (format : formatOf target = .ok f) (s : Service)
    (t : Times) (r : ExtractRequest) (x : Extraction) : (s.answerWith t target r x).1.status ≠ 400 := by
  rw [answerWith]
  split
  · split
    · exact (by decide : 500 ≠ 400)
    · rw [report_eq format]
      exact (by decide : 200 ≠ 400)
  · rw [report_eq format]
    exact (by decide : 200 ≠ 400)

/-- A pattern is malformed whatever name it is tried on, so that a pattern that was accepted cannot fail later and leaves
out just the names that it matches. Extraction, configuration, service and query log all refuse a list of patterns if
and only if one of them is malformed, and name the first such, whatever is to be extracted. -/
theorem malformed_patterns_refused :
    (∀ text name, (Glob.attempt text name).isSome ↔ Glob.WellFormed text.toList) ∧
    (∀ texts patterns, readPatterns texts = .ok patterns → LeaveOut texts patterns) ∧
    (∀ texts e, readPatterns texts = .error e ↔ FirstMalformed texts e.text) ∧
    (∀ o text e, Extraction.ofText o text = .error (.pattern e) ↔ FirstMalformed o.exclude e.text) ∧
    (∀ (c : Config) e, c.check = .error (.pattern e) ↔
      { c with exclude := [] }.check = .ok () ∧ FirstMalformed c.exclude e.text) ∧
    (∀ (s : Service) t target body r f, ExtractRequest.ofBody body = .ok r → Service.formatOf target = .ok f →
      (r.save → s.store.isSome) →
      (∀ e : BadPattern, FirstMalformed (s.exclude ++ r.exclude) e.text →
        s.extract t target body = (.fault 400 e.message, s)) ∧
      ((s.extract t target body).1.status = 400 → ∃ p, FirstMalformed (s.exclude ++ r.exclude) p)) ∧
    ∀ o queries e, LoggedQuery.lineage o queries = .error e ↔ FirstMalformed o.exclude e.text := by
  refine ⟨Glob.attempt_isSome, fun _ _ => leaveOut_of_readPatterns, fun _ _ => readPatterns_error_iff,
    fun _ _ _ => Extraction.ofText_pattern_iff, ?_, ?_, ?_⟩
  · intro c e
    rw [← readPatterns_error_iff]
    simp only [Config.check, readPatterns]
    split
    · simp
    · split
      · simp
      · split
        · simp
        · split
          · simp
          · cases readPatterns c.exclude <;> simp
  · intro s t target body r f asked format possible
    have able : ¬(r.save && s.store.isNone) := by
      cases save : r.save with
      | false => simp
      | true => simp [Option.isSome_iff_ne_none.1 (possible save)]
    simp only [Service.extract, asked, format, if_neg able]
    refine ⟨fun e malformed => ?_, fun status => ?_⟩
    · rw [Extraction.ofText_pattern_iff.2 malformed]
    · split at status
      · next extracted => exact ⟨_, Extraction.ofText_pattern_iff.1 extracted⟩
      · cases status
      · exact absurd status (Service.answerWith_status format _ _ _ _)
  · intro o queries e
    rw [← readPatterns_error_iff, LoggedQuery.lineage]
    cases readPatterns o.exclude <;> simp

end TableLineage
