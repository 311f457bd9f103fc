import TableLineage.Grammar.Part

/-! What looking ahead tells about the kinds of the tokens ahead: a few guesses, one of
which is right. Looks that succeed and looks that fail both narrow the guesses. -/
namespace TableLineage.Grammar

open List

theorem peek_tail (ts : List Token) (n : Nat) : peek ts.tail n = peek ts (n + 1) := by
  simp [peek]

/-- The kinds that the tokens ahead may have, place by place; nothing is known without a list. -/
abbrev Guess := List (Option (List Kind))

variable {ts : List Token} {ks : List Kind}

namespace Guess

def Fits : Guess → List Token → Prop
  | [], _ => True
  | kinds :: g, ts => (∀ ks ∈ kinds, (peek ts 0).kind ∈ ks) ∧ Fits g ts.tail

/-- The kinds that two lists share, if there are any. -/
def narrow : Option (List Kind) → Option (List Kind) → Option (Option (List Kind))
  | none, b => some b
  | a, none => some a
  | some ks, some js => if (ks.filter js.contains).isEmpty then none else some (some (ks.filter js.contains))

def meet : Guess → Guess → Option Guess
  | [], h => some h
  | g, [] => some g
  | a :: g, b :: h => (narrow a b).bind fun c => (meet g h).map (c :: ·)

/-- The guess without some kinds at its first place. -/
def without (ks : List Kind) : Guess → Option Guess
  | some js :: g =>
    if (js.filter fun j => !ks.contains j).isEmpty then none
    else some (some (js.filter fun j => !ks.contains j) :: g)
  | g => some g

variable {g h : Guess}

theorem exists_narrow {a b : Option (List Kind)} {k : Kind} (left : ∀ ks ∈ a, k ∈ ks) (right : ∀ ks ∈ b, k ∈ ks) :
    ∃ c, narrow a b = some c ∧ ∀ ks ∈ c, k ∈ ks := by
  cases a with
  | none => exact ⟨b, by cases b <;> rfl, right⟩
  | some ks =>
    cases b with
    | none => exact ⟨some ks, rfl, left⟩
    | some js =>
      have both : k ∈ ks.filter js.contains := by simp [left ks rfl, right js rfl]
      refine ⟨some (ks.filter js.contains), if_neg ?_, by simpa using both⟩
      rw [List.isEmpty_iff]
      exact ne_nil_of_mem both

theorem exists_meet (left : g.Fits ts) (right : h.Fits ts) : ∃ m, g.meet h = some m ∧ m.Fits ts := by
  fun_induction meet g h generalizing ts with
  | case1 h => exact ⟨h, rfl, right⟩
  | case2 g => exact ⟨g, rfl, left⟩
  | case3 a g b h ih =>
    obtain ⟨c, narrowed, head⟩ := exists_narrow left.1 right.1
    obtain ⟨m, met, rest⟩ := ih left.2 right.2
    exact ⟨c :: m, by rw [narrowed, met]; rfl, head, rest⟩

theorem exists_without (fits : g.Fits ts) (fails : (peek ts 0).kind ∉ ks) : ∃ m, g.without ks = some m ∧ m.Fits ts := by
  fun_cases without ks g with
  | case1 js g none =>
    have left : (peek ts 0).kind ∈ js.filter fun j => !ks.contains j := by simp [fits.1 js rfl, fails]
    rw [List.isEmpty_iff.1 none] at left
    cases left
  | case2 js g some =>
    refine ⟨_, rfl, ?_, fits.2⟩
    simp [fits.1 js rfl, fails]
  | case3 => exact ⟨g, rfl, fits⟩

end Guess

/-- One of the guesses is right. -/
abbrev Ahead := List Guess

namespace Ahead

def Holds (a : Ahead) (ts : List Token) : Prop := ∃ g ∈ a, g.Fits ts

/-- Nothing is known. -/
def anything : Ahead := [[]]

theorem holds_anything (ts : List Token) : anything.Holds ts := ⟨[], mem_singleton_self [], trivial⟩

def meet (a b : Ahead) : Ahead := a.flatMap fun g => b.filterMap g.meet

def join (a b : Ahead) : Ahead := if a.contains [] || b.contains [] then anything else a ++ b

/-- What is known one token later. -/
def next (a : Ahead) : Ahead := a.map List.tail

/-- The kinds that the next token may have, if they are known. -/
def heads : Ahead → Option (List Kind)
  | [] => some []
  | (some ks :: _) :: a => (heads a).map fun js => ks ++ js.filter fun j => !ks.contains j
  | _ :: _ => none

/-- The class of the next token, if its kinds are known. -/
def class? (a : Ahead) : Option Class :=
  match a.heads with
  | some [k] => some (.kind k)
  | some ks => some (.anyOf ks)
  | none => none

/-- Whether the next token surely is of one of the kinds; none given, it may be any. -/
def entails (a : Ahead) : Option (List Kind) → Bool
  | none => true
  | some ks => (a.heads.map fun js => js.all ks.contains).getD false

variable {a b : Ahead}

theorem Holds.meet (left : a.Holds ts) (right : b.Holds ts) : (a.meet b).Holds ts := by
  obtain ⟨g, first, fits⟩ := left
  obtain ⟨h, second, also⟩ := right
  obtain ⟨m, met, both⟩ := Guess.exists_meet fits also
  exact ⟨m, mem_flatMap.2 ⟨g, first, mem_filterMap.2 ⟨h, second, met⟩⟩, both⟩

theorem Holds.join (one : a.Holds ts ∨ b.Holds ts) : (a.join b).Holds ts := by
  unfold Ahead.join
  split
  · exact holds_anything ts
  · obtain ⟨g, member, fits⟩ | ⟨g, member, fits⟩ := one
    · exact ⟨g, mem_append_left _ member, fits⟩
    · exact ⟨g, mem_append_right _ member, fits⟩

theorem Holds.next {t : Token} (holds : a.Holds (t :: ts)) : a.next.Holds ts := by
  obtain ⟨g, member, fits⟩ := holds
  refine ⟨g.tail, mem_map_of_mem member, ?_⟩
  cases g with
  | nil => trivial
  | cons => exact fits.2

theorem Holds.mem_heads (holds : a.Holds ts) (known : a.heads = some ks) : (peek ts 0).kind ∈ ks := by
  obtain ⟨g, member, fits⟩ := holds
  fun_induction heads a generalizing ks with
  | case1 => cases member
  | case2 js g' a ih =>
    obtain ⟨is, rest, rfl⟩ := Option.map_eq_some_iff.1 known
    obtain rfl | later := mem_cons.1 member
    · exact mem_append_left _ (fits.1 js rfl)
    · by_cases here : (peek ts 0).kind ∈ js
      · exact mem_append_left _ here
      · exact mem_append_right _ (by simp [ih rest later, here])
  | case3 => cases known

theorem Holds.holds_class (holds : a.Holds ts) : ∀ c ∈ a.class?, c.holds (peek ts 0) := by
  intro c found
  unfold class? at found
  split at found
  · next k known =>
    cases found
    simpa [Class.holds] using holds.mem_heads known
  · next ks _ known =>
    cases found
    simpa [Class.holds] using holds.mem_heads known
  · cases found

theorem Holds.of_entails (holds : a.Holds ts) {kinds : Option (List Kind)} (sure : a.entails kinds) :
    ∀ ks ∈ kinds, (peek ts 0).kind ∈ ks := by
  rintro ks rfl
  unfold entails at sure
  cases known : a.heads with
  | none => simp [known] at sure
  | some js =>
    have all : ∀ k ∈ js, k ∈ ks := by simpa [known] using sure
    exact all _ (holds.mem_heads known)

end Ahead

/-- The kinds of a class, if it is known by them. -/
def Class.kinds? : Class → Option (List Kind)
  | .kind k => some [k]
  | .anyOf ks => some ks
  | _ => none

theorem Class.holds_iff_of_kinds {c : Class} (known : c.kinds? = some ks) (l : Lexeme) : c.holds l ↔ l.kind ∈ ks := by
  cases c with
  | kind | anyOf =>
    cases known
    simp [Class.holds]
  | _ => cases known

namespace Look

/-- What is known where the look succeeds. -/
def told : Look → Ahead
  | .ahead n c => [List.replicate n none ++ [c.kinds?]]
  | .both a b => a.told.meet b.told
  | .either a b => a.told ++ b.told
  | _ => Ahead.anything

/-- What is left of the guesses where the look fails. -/
def untold (known : Ahead) : Look → Ahead
  | .ahead 0 c => known.filterMap (Guess.without (c.kinds?.getD []))
  | .either a b => b.untold (a.untold known)
  | _ => known

/-- Whether the look is bound to succeed, at a token before the end. -/
def bound (known : Ahead) : Look → Bool
  | .ahead 0 c => (c.kinds?.map fun ks => known.entails (some ks) && !ks.contains .eof).getD false
  | .either a b => a.bound known || b.bound known
  | _ => false

variable {l : Look}

theorem fits_replicate {n : Nat} {kinds : Option (List Kind)} (fits : ∀ ks ∈ kinds, (peek ts n).kind ∈ ks) :
    Guess.Fits (List.replicate n none ++ [kinds]) ts := by
  induction n generalizing ts with
  | zero => exact ⟨fits, trivial⟩
  | succ n ih =>
    rw [← peek_tail] at fits
    exact ⟨by simp, ih fits⟩

theorem holds_told (success : l.holds ts) : l.told.Holds ts := by
  induction l with
  | ahead n c =>
    refine ⟨_, mem_singleton_self _, fits_replicate ?_⟩
    intro ks known
    exact (Class.holds_iff_of_kinds known _).1 success
  | both a b first second =>
    obtain ⟨left, right⟩ := Bool.and_eq_true_iff.1 success
    exact (first left).meet (second right)
  | either a b first second =>
    obtain left | right := Bool.or_eq_true_iff.1 success
    · obtain ⟨g, member, fits⟩ := first left
      exact ⟨g, mem_append_left _ member, fits⟩
    · obtain ⟨g, member, fits⟩ := second right
      exact ⟨g, mem_append_right _ member, fits⟩
  | not | query | star | funcCall | outside => exact Ahead.holds_anything ts

theorem holds_untold {known : Ahead} (holds : known.Holds ts) (failure : l.holds ts = false) :
    (l.untold known).Holds ts := by
  fun_induction untold known l with
  | case1 known c =>
    obtain ⟨g, member, fits⟩ := holds
    have outside : (peek ts 0).kind ∉ c.kinds?.getD [] := by
      cases kinds : c.kinds? with
      | none => simp
      | some ks =>
        intro inside
        have success : c.holds (peek ts 0) := (Class.holds_iff_of_kinds kinds _).2 inside
        rw [show c.holds (peek ts 0) = false from failure] at success
        cases success
    obtain ⟨m, left, still⟩ := Guess.exists_without fits outside
    exact ⟨m, mem_filterMap.2 ⟨g, member, left⟩, still⟩
  | case2 known a b first second =>
    obtain ⟨left, right⟩ := Bool.or_eq_false_iff.1 failure
    exact second (first holds left) right
  | case3 => exact holds

theorem holds_of_bound {known : Ahead} (holds : known.Holds ts) (sure : l.bound known) :
    l.holds ts ∧ ts ≠ [] := by
  fun_induction bound known l with
  | case1 c =>
    cases kinds : c.kinds? with
    | none => simp [kinds] at sure
    | some ks =>
      obtain ⟨entailed, inside⟩ : known.entails (some ks) ∧ Kind.eof ∉ ks := by simpa [kinds] using sure
      have member := holds.of_entails entailed ks rfl
      refine ⟨(Class.holds_iff_of_kinds kinds _).2 member, ?_⟩
      rintro rfl
      exact inside member
  | case2 a b first second =>
    obtain left | right := Bool.or_eq_true_iff.1 sure
    · obtain ⟨success, inside⟩ := first left
      exact ⟨Bool.or_eq_true_iff.2 (.inl success), inside⟩
    · obtain ⟨success, inside⟩ := second right
      exact ⟨Bool.or_eq_true_iff.2 (.inr success), inside⟩
  | case3 => cases sure

end Look
end TableLineage.Grammar
