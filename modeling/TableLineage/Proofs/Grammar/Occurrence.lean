import TableLineage.Proofs.Grammar.Form

/-! Which leaves the nodes from a rule bring along in the matches of a form, and in which order nodes from
several rules come. -/
namespace TableLineage.Grammar.Form

open List

variable {f : Form} {r : Rule} {ts : List Tree} {parts : List Rule}

/-- Whether every match with a node from the rule has a leaf that is picked. -/
def brings (r : Rule) (l : Option Class → Bool) : Form → Bool
  | never | empty | leaf _ => true
  | node rs => !rs.contains r
  | seq a b => (a.brings r l && b.brings r l) || a.surely l (fun _ => false) || b.surely l (fun _ => false)
  | alt a b => a.brings r l && b.brings r l
  | many a => a.brings r l

theorem exists_leaf_of_brings {l : Option Class → Bool} (along : f.brings r l) (shape : f.Matches ts)
    (there : ∃ t ∈ ts, t.rule? = some r) : ∃ t ∈ ts, Picked l (fun _ => false) t := by
  induction f generalizing ts with
  | never => exact shape.elim
  | empty =>
    obtain ⟨t, member, _⟩ := there
    rw [show ts = [] from shape] at member
    cases member
  | leaf =>
    obtain ⟨_, rfl, tok, rfl, _⟩ := shape
    obtain ⟨t, member, rule⟩ := there
    rw [mem_singleton.1 member] at rule
    cases rule
  | node rs =>
    obtain ⟨d, rfl, s, among, same⟩ := shape
    obtain ⟨t, member, rule⟩ := there
    rw [mem_singleton.1 member, same] at rule
    cases rule
    simp [brings, among] at along
  | seq a b first second =>
    obtain ⟨us, vs, rfl, left, right⟩ := shape
    obtain ⟨t, member, rule⟩ := there
    simp only [brings, Bool.or_eq_true, Bool.and_eq_true] at along
    obtain (⟨one, other⟩ | sure) | sure := along
    · obtain before | after := mem_append.1 member
      · obtain ⟨u, inside, picked⟩ := first one left ⟨t, before, rule⟩
        exact ⟨u, mem_append_left _ inside, picked⟩
      · obtain ⟨u, inside, picked⟩ := second other right ⟨t, after, rule⟩
        exact ⟨u, mem_append_right _ inside, picked⟩
    · obtain ⟨u, inside, picked⟩ := exists_of_surely sure left
      exact ⟨u, mem_append_left _ inside, picked⟩
    · obtain ⟨u, inside, picked⟩ := exists_of_surely sure right
      exact ⟨u, mem_append_right _ inside, picked⟩
  | alt a b first second =>
    obtain ⟨one, other⟩ := Bool.and_eq_true_iff.1 along
    obtain left | right := shape
    · exact first one left there
    · exact second other right there
  | many a ih =>
    obtain ⟨tss, rfl, each⟩ := shape
    obtain ⟨t, member, rule⟩ := there
    obtain ⟨us, among, inside⟩ := mem_flatten.1 member
    obtain ⟨u, found, picked⟩ := ih along (each us among) ⟨t, inside, rule⟩
    exact ⟨u, mem_flatten.2 ⟨us, among, found⟩, picked⟩

/-! ### Clauses in their order -/

/-- How far nodes from the rules `parts` get in that order in a match of the form, the first `n` of them
being passed already. There is no answer if they may come in another order. -/
def reach (parts : List Rule) : Form → Nat → Option Nat
  | never, n | empty, n | leaf _, n => some n
  | node rs, n =>
    let known := rs.filter parts.contains
    if known.all (n ≤ parts.idxOf ·) then some (known.foldr (fun r k => max k (parts.idxOf r + 1)) n) else none
  | seq a b, n => (a.reach parts n).bind (b.reach parts)
  | alt a b, n => (a.reach parts n).bind fun k => (b.reach parts n).map (max k)
  | many a, n => if a.always (fun _ => true) (!parts.contains ·) then some n else none

/-- The rules among `parts` that nodes come from. -/
def rulesAmong (parts : List Rule) (ts : List Tree) : List Rule := (ts.filterMap Tree.rule?).filter parts.contains

theorem rulesAmong_append (parts : List Rule) (ts us : List Tree) :
    rulesAmong parts (ts ++ us) = rulesAmong parts ts ++ rulesAmong parts us := by
  simp [rulesAmong]

theorem rulesAmong_of_always (none : f.always (fun _ => true) (!parts.contains ·)) (shape : f.Matches ts) :
    rulesAmong parts ts = [] := by
  apply filter_eq_nil_iff.2
  intro s member
  obtain ⟨t, among, rule⟩ := mem_filterMap.1 member
  obtain ⟨_, _, tok, rfl, _⟩ | ⟨q, other, same⟩ := forall_of_always none shape t among
  · cases rule
  · cases rule.symm.trans same
    simpa using other

/-- The rules that are passed on the way from one number to another. -/
theorem passed_append (parts : List Rule) {n k m : Nat} (less : n ≤ k) (less' : k ≤ m) :
    (parts.drop n).take (k - n) ++ (parts.drop k).take (m - k) = (parts.drop n).take (m - n) := by
  have whole : m - n = (k - n) + (m - k) := by omega
  have rest : parts.drop k = (parts.drop n).drop (k - n) := by rw [drop_drop, Nat.add_sub_cancel' less]
  rw [whole, take_add, rest]

theorem le_foldr_max (parts : List Rule) (n : Nat) (rs : List Rule) :
    n ≤ rs.foldr (fun r k => max k (parts.idxOf r + 1)) n ∧
      ∀ r ∈ rs, parts.idxOf r < rs.foldr (fun r k => max k (parts.idxOf r + 1)) n := by
  induction rs with
  | nil => simp
  | cons s rs ih =>
    rw [foldr_cons, forall_mem_cons]
    refine ⟨by omega, by omega, fun r member => ?_⟩
    have := ih.2 r member
    omega

theorem singleton_sublist_passed {n k : Nat} (member : r ∈ parts) (since : n ≤ parts.idxOf r)
    (before : parts.idxOf r < k) : [r].Sublist ((parts.drop n).take (k - n)) := by
  have inside : parts.idxOf r < parts.length := idxOf_lt_length_iff.2 member
  apply singleton_sublist.2
  rw [mem_iff_getElem?]
  refine ⟨parts.idxOf r - n, ?_⟩
  rw [getElem?_take_of_lt (by omega), getElem?_drop, Nat.add_sub_cancel' since, getElem?_eq_getElem inside,
    getElem_idxOf]

theorem rulesAmong_sublist {n k : Nat} (reached : f.reach parts n = some k) (shape : f.Matches ts) :
    n ≤ k ∧ (rulesAmong parts ts).Sublist ((parts.drop n).take (k - n)) := by
  induction f generalizing ts n k with
  | never => exact shape.elim
  | empty =>
    cases reached
    simp [show ts = [] from shape, rulesAmong]
  | leaf =>
    obtain ⟨_, rfl, tok, rfl, _⟩ := shape
    cases reached
    simp [rulesAmong, Tree.rule?]
  | node rs =>
    obtain ⟨t, rfl, s, among, rule⟩ := shape
    simp only [reach, Option.ite_none_right_eq_some, Option.some.injEq] at reached
    obtain ⟨since, rfl⟩ := reached
    obtain ⟨less, before⟩ := le_foldr_max parts n (rs.filter parts.contains)
    refine ⟨less, ?_⟩
    by_cases known : parts.contains s
    · have inside : s ∈ rs.filter parts.contains := mem_filter.2 ⟨among, known⟩
      have single : rulesAmong parts [t] = [s] := by simpa [rulesAmong, rule] using known
      rw [single]
      exact singleton_sublist_passed (contains_iff_mem.1 known)
        (of_decide_eq_true (all_eq_true.1 since s inside)) (before s inside)
    · have none : rulesAmong parts [t] = [] := by simpa [rulesAmong, rule] using known
      rw [none]
      exact nil_sublist _
  | seq a b first second =>
    obtain ⟨us, vs, rfl, left, right⟩ := shape
    obtain ⟨m, one, other⟩ := Option.bind_eq_some_iff.1 reached
    obtain ⟨less, sub⟩ := first one left
    obtain ⟨less', sub'⟩ := second other right
    refine ⟨Nat.le_trans less less', ?_⟩
    rw [rulesAmong_append, ← passed_append parts less less']
    exact sub.append sub'
  | alt a b first second =>
    obtain ⟨m, one, other⟩ := Option.bind_eq_some_iff.1 reached
    obtain ⟨m', two, rfl⟩ := Option.map_eq_some_iff.1 other
    have more {i : Nat} (low : n ≤ i) (high : i ≤ max m m') :
        ((parts.drop n).take (i - n)).Sublist ((parts.drop n).take (max m m' - n)) :=
      take_sublist_take_left (by omega)
    obtain left | right := shape
    · obtain ⟨less, sub⟩ := first one left
      exact ⟨by omega, sub.trans (more less (by omega))⟩
    · obtain ⟨less, sub⟩ := second two right
      exact ⟨by omega, sub.trans (more less (by omega))⟩
  | many a =>
    simp only [reach, Option.ite_none_right_eq_some, Option.some.injEq] at reached
    obtain ⟨none, rfl⟩ := reached
    have nothing : (many a).always (fun _ => true) (!parts.contains ·) := none
    rw [rulesAmong_of_always nothing shape]
    exact ⟨Nat.le_refl _, nil_sublist _⟩

theorem flatMap_find?_congr {us : List Tree} (same : ∀ r ∈ parts, ts.find? (·.hasRule r) = us.find? (·.hasRule r)) :
    (parts.flatMap fun r => (ts.find? (·.hasRule r)).toList) = parts.flatMap fun r => (us.find? (·.hasRule r)).toList := by
  rw [flatMap_def, flatMap_def, map_congr_left fun r member => by rw [same r member]]

/-- Nodes whose rules come in the order of `parts` are, part by part, the first node from each. -/
theorem eq_flatMap_of_sublist (nodup : parts.Nodup) (nodes : ∀ t ∈ ts, t.isLeaf = false)
    (sub : (ts.filterMap Tree.rule?).Sublist parts) : ts = parts.flatMap fun r => (ts.find? (·.hasRule r)).toList := by
  induction parts generalizing ts with
  | nil =>
    have none := eq_nil_of_sublist_nil sub
    cases ts with
    | nil => rfl
    | cons t ts =>
      obtain _ | _ := t
      · cases nodes _ mem_cons_self
      · cases none
  | cons p parts ih =>
    obtain ⟨fresh, nodup⟩ := nodup_cons.1 nodup
    have missing (later : (ts.filterMap Tree.rule?).Sublist parts) : ts.find? (·.hasRule p) = none := by
      rw [find?_eq_none]
      intro t member same
      exact fresh (later.subset (mem_filterMap.2 ⟨t, member, by simpa [Tree.hasRule] using same⟩))
    cases ts with
    | nil => simp
    | cons t us =>
      cases t with
      | leaf => cases nodes _ mem_cons_self
      | node s f l x cs =>
        cases sub with
        | cons _ later =>
          rw [flatMap_cons, missing later, Option.toList_none, nil_append]
          exact ih nodup nodes later
        | cons_cons _ rest =>
          have others : ∀ r ∈ parts, (Tree.node p f l x cs :: us).find? (·.hasRule r) = us.find? (·.hasRule r) := by
            intro r member
            have other : p ≠ r := fun same => fresh (same ▸ member)
            exact find?_cons_of_neg (by simp [Tree.hasRule, Tree.rule?, other])
          have first : (Tree.node p f l x cs :: us).find? (·.hasRule p) = some (.node p f l x cs) :=
            find?_cons_of_pos (by simp [Tree.hasRule, Tree.rule?])
          have tail := ih nodup (fun t member => nodes t (mem_cons_of_mem _ member)) rest
          rw [flatMap_cons, first, flatMap_find?_congr others, ← tail]
          rfl

/-- The nodes from `parts` are, part by part, the first one from each. -/
theorem filter_eq_flatMap (nodup : parts.Nodup) (reached : (f.reach parts 0).isSome) (shape : f.Matches ts) :
    ts.filter (fun t => parts.any (t.hasRule ·)) = parts.flatMap fun r => (ts.find? (·.hasRule r)).toList := by
  obtain ⟨k, reached⟩ := Option.isSome_iff_exists.1 reached
  obtain ⟨-, sub⟩ := rulesAmong_sublist reached shape
  have rules : (ts.filter fun t => parts.any (t.hasRule ·)).filterMap Tree.rule? = rulesAmong parts ts := by
    rw [rulesAmong, filterMap_filter, filter_filterMap]
    congr 1
    funext t
    cases t with
    | leaf => simp [Tree.rule?]
    | node s => by_cases known : s ∈ parts <;> simp [Tree.rule?, Tree.hasRule, Option.filter, known]
  have nodes : ∀ t ∈ ts.filter (fun t => parts.any (t.hasRule ·)), t.isLeaf = false := by
    intro t member
    obtain ⟨r, -, same⟩ := any_eq_true.1 (mem_filter.1 member).2
    exact isLeaf_of_rule (by simpa [Tree.hasRule] using same)
  have whole := eq_flatMap_of_sublist nodup nodes (rules ▸ sub.trans (take_sublist _ _))
  refine whole.trans (flatMap_find?_congr fun r member => ?_)
  rw [find?_filter]
  congr 1
  funext t
  cases same : t.hasRule r with
  | false => simp
  | true => simpa using ⟨r, member, same⟩

end TableLineage.Grammar.Form
