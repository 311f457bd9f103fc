import TableLineage.Text.Lower
import Mathlib.Data.List.Forall2

/-! Texts that differ in the case of ASCII letters only. Whatever does not tell a capital from its
small letter says the same of both texts, and so do all the ways in which words are compared. -/
namespace TableLineage.Text

open List

/-- The letters that have another lower case in ASCII. -/
def capitals : List Char :=
  ['A', 'B', 'C', 'D', 'E', 'F', 'G', 'H', 'I', 'J', 'K', 'L', 'M', 'N', 'O', 'P', 'Q', 'R', 'S', 'T', 'U', 'V', 'W', 'X',
    'Y', 'Z']

variable {c : Char} {α : Type} {f : Char → α}

theorem mem_capitals (upper : 'A'.val ≤ c.val ∧ c.val ≤ 'Z'.val) : c ∈ capitals := by
  have bounds : 65 ≤ c.toNat ∧ c.toNat ≤ 90 := by
    simpa [UInt32.le_iff_toNat_le, ← Char.toNat_val] using upper
  obtain ⟨least, most⟩ := bounds
  rw [← Char.ofNat_toNat c]
  generalize c.toNat = n at least most
  have all : ∀ k < 26, Char.ofNat (65 + k) ∈ capitals := by decide
  have := all (n - 65) (by omega)
  rwa [Nat.add_sub_cancel' least] at this

theorem toLower_eq_self_or (c : Char) : c.toLower = c ∨ c ∈ capitals := by
  unfold Char.toLower
  split
  · next upper => exact .inr (mem_capitals upper)
  · exact .inl rfl

/-- A function that does not tell capitals from small letters. -/
def Caseless {α : Type} (f : Char → α) : Prop := ∀ c ∈ capitals, f c.toLower = f c

-- Only the capitals are gone through, not all characters.
instance {α : Type} [DecidableEq α] (f : Char → α) : Decidable (Caseless f) :=
  List.decidableBAll (fun c => f c.toLower = f c) capitals

/-- The same character, or the same ASCII letter in the other case. -/
def SameLetter (c d : Char) : Prop := c.toLower = d.toLower

/-- Texts that are the same, letter by letter, but for the case of ASCII letters. -/
abbrev SameLetters (cs ds : List Char) : Prop := List.Forall₂ SameLetter cs ds

theorem Caseless.toLower_eq (caseless : Caseless f) (c : Char) : f c.toLower = f c := by
  obtain same | capital := toLower_eq_self_or c
  · rw [same]
  · exact caseless c capital

theorem sameLetter_toLower (c : Char) : SameLetter c.toLower c :=
  Caseless.toLower_eq (by decide) c

namespace SameLetter

variable {d : Char} (same : SameLetter c d)

include same

theorem apply_eq (caseless : Caseless f) : f c = f d := by
  rw [← caseless.toLower_eq c, same, caseless.toLower_eq]

theorem eq_iff {q : Char} (sign : q.isAlpha = false) : c = q ↔ d = q := by
  have caseless : Caseless fun c => decide (c = q) := by
    have letters : capitals.all fun c => c.isAlpha && c.toLower.isAlpha := by decide
    intro c capital
    obtain ⟨letter, small⟩ := Bool.and_eq_true_iff.1 (all_eq_true.1 letters c capital)
    have other : c ≠ q := by
      rintro rfl
      cases letter.symm.trans sign
    have other' : c.toLower ≠ q := by
      rintro rfl
      cases small.symm.trans sign
    simp [other, other']
  simpa using same.apply_eq caseless

end SameLetter

theorem sameLetters_refl (cs : List Char) : SameLetters cs cs := forall₂_same.2 fun _ _ => rfl

namespace SameLetters

variable {cs ds : List Char} (same : SameLetters cs ds)

include same

theorem symm : SameLetters ds cs := by
  induction same with
  | nil => exact .nil
  | cons first _ ih => exact .cons (Eq.symm first) ih

theorem map_eq (caseless : Caseless f) : cs.map f = ds.map f := by
  induction same with
  | nil => rfl
  | cons first _ ih => rw [map_cons, map_cons, first.apply_eq caseless, ih]

theorem takeWhile {p : Char → Bool} (caseless : Caseless p) : SameLetters (cs.takeWhile p) (ds.takeWhile p) := by
  induction same with
  | nil => exact .nil
  | cons first _ ih =>
    rw [takeWhile_cons, takeWhile_cons, first.apply_eq caseless]
    split
    · exact .cons first ih
    · exact .nil

theorem take (n : Nat) : SameLetters (cs.take n) (ds.take n) := forall₂_take n same

theorem drop (n : Nat) : SameLetters (cs.drop n) (ds.drop n) := forall₂_drop n same

end SameLetters

/-! ### Words -/

theorem caseless_isCaseIgnorable : Caseless isCaseIgnorable := by
  decide +kernel

theorem isCased_capital (capital : c ∈ capitals) : isCased c ∧ isCased c.toLower := by
  have all : capitals.all fun c => isCased c && isCased c.toLower := by decide +kernel
  exact Bool.and_eq_true_iff.1 (all_eq_true.1 all c capital)

theorem caseless_isCased : Caseless isCased := by
  intro c capital
  obtain ⟨one, other⟩ := isCased_capital capital
  rw [one, other]

/-- A character without case is the same in both texts. -/
theorem SameLetter.eq_of_not_cased {d : Char} (same : SameLetter c d) (bare : isCased d = false) : c = d := by
  have small {e : Char} (bare : isCased e = false) : e.toLower = e :=
    (toLower_eq_self_or e).resolve_right fun capital => by simp [(isCased_capital capital).1] at bare
  rw [← small bare, ← same, small ((same.apply_eq caseless_isCased).trans bare)]

namespace SameLetters

variable {cs ds : List Char} (same : SameLetters cs ds)

include same

theorem wordGoesOn_eq (n : Nat) : wordGoesOn n cs = wordGoesOn n ds := by
  induction same generalizing n with
  | nil => rfl
  | cons first _ ih =>
    cases n with
    | zero => rfl
    | succ n =>
      have ignorable := first.apply_eq caseless_isCaseIgnorable
      have cased := first.apply_eq caseless_isCased
      rw [wordGoesOn, wordGoesOn, ignorable, cased, ih]

theorem lowerFrom_eq (inWord : Bool) : lowerFrom inWord cs = lowerFrom inWord ds := by
  induction same generalizing inWord with
  | nil => rfl
  | @cons c d cs ds first rest ih =>
    have ignorable := first.apply_eq caseless_isCaseIgnorable
    have cased := first.apply_eq caseless_isCased
    have full := first.apply_eq (f := lowerFull) (by decide)
    have sigma := first.eq_iff (q := capitalSigma) (by decide)
    simp only [lowerFrom, cased, ignorable, full, sigma, ih, wordGoesOn_eq rest]
    split
    · split
      · rfl
      · next bare => rw [first.eq_of_not_cased (Bool.eq_false_iff.2 bare)]
    split
    · next bare =>
      rw [Bool.and_eq_true, Bool.not_eq_true', Bool.not_eq_true'] at bare
      rw [first.eq_of_not_cased bare.1]
    · rfl

end SameLetters

section

variable {s s' : String} (same : SameLetters s.toList s'.toList)

include same

theorem lower_eq : lower s = lower s' := congrArg String.ofList (same.lowerFrom_eq false)

theorem lowerWord_eq : lowerWord s = lowerWord s' := congrArg String.ofList (same.map_eq (by decide))

theorem upperWord_eq : upperWord s = upperWord s' := congrArg String.ofList (same.map_eq (by decide))

theorem spells_eq (word : String) : spells s word = spells s' word := by
  rw [spells, spells, same.map_eq (f := folded) (by decide)]

end

/-- The text with small letters in place of the capitals of ASCII. -/
def small (s : String) : String := String.ofList (s.toList.map Char.toLower)

theorem sameLetters_small (s : String) : SameLetters (small s).toList s.toList := by
  rw [small, String.toList_ofList]
  exact forall₂_map_left_iff.2 (forall₂_same.2 fun c _ => sameLetter_toLower c)

theorem small_eq {s s' : String} (same : SameLetters s.toList s'.toList) : small s = small s' :=
  congrArg String.ofList (same.map_eq (by decide))

end TableLineage.Text
