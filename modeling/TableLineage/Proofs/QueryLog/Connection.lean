import Mathlib.Data.List.Basic
import Std.Data.String.ToInt
import TableLineage.QueryLog.Connection

/-! What the line of settings of a connection says. Settings stand between blanks and no value is put in quotes, so a
line says what it should just if no value has a blank in it. -/
namespace TableLineage.Connection

open List

/-! ### Reading a line -/

/-- What separates settings. -/
def isBlank (c : Char) : Bool := c ∈ [' ', '\t', '\n', '\r', '\x0b', '\x0c']

/-- A setting as it is written. -/
def written (s : String × String) : List Char := s.1.toList ++ '=' :: s.2.toList

/-- The settings that a line should have, the first apart. -/
def others (c : Connection) : List (String × String) :=
  let d := c.withDefaults
  ("port", toString d.port) :: ("dbname", d.database) :: ("sslmode", d.sslMode) ::
    ([("user", d.username), ("password", d.password)].filter (!·.2.isEmpty))

def settings (c : Connection) : List (String × String) := ("host", c.withDefaults.host) :: c.others

/-- No value has a blank in it. -/
def Plain (c : Connection) : Prop := ∀ s ∈ c.settings, ∀ a ∈ s.2.toList, isBlank a = false

/-- The values in front of the password have no space in them. -/
def Unbroken (c : Connection) : Prop := ∀ s ∈ [c.host, c.database, c.sslMode, c.username], ' ' ∉ s.toList

instance (c : Connection) : Decidable c.Unbroken := List.decidableBAll ..

theorem toList_toString_int (n : Int) :
    ∃ m, (toString n).toList = Nat.toDigits 10 m ∨ (toString n).toList = '-' :: Nat.toDigits 10 m := by
  rw [Int.toString_eq_repr, Int.repr_eq_if]
  split
  · exact ⟨n.toNat, .inl (by simp [Nat.repr_eq_ofList_toDigits])⟩
  · exact ⟨(-n).toNat, .inr (by simp [Nat.repr_eq_ofList_toDigits])⟩

theorem space_notMem_orElse {s standard : String} (free : ' ' ∉ s.toList) (free' : ' ' ∉ standard.toList) :
    ' ' ∉ (orElse s standard).toList := by
  unfold orElse
  split
  · exact free'
  · exact free

theorem Unbroken.withDefaults {c : Connection} (unbroken : c.Unbroken) : c.withDefaults.Unbroken := by
  simp only [Unbroken, forall_mem_cons] at unbroken ⊢
  obtain ⟨host, database, sslMode, username, -⟩ := unbroken
  exact ⟨space_notMem_orElse host (by decide), database, space_notMem_orElse sslMode (by decide), username, by simp⟩

end TableLineage.Connection
