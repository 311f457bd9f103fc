import Mathlib.Data.List.Basic
import TableLineage.Proofs.Text.Slice
import TableLineage.RunId
import TableLineage.Service.Route
import TableLineage.Service.Url

/-! The way of a run: a path that ends with the id of a run leads to the question for that run, and
the id is read from the path as it was written. -/
namespace TableLineage

open List

/-! ### Bytes of plain characters -/

namespace Text

theorem bytesOf_ascii {cs : List Char} (ascii : ∀ c ∈ cs, c.toNat < 128) :
    bytesOf cs = cs.map fun c => UInt8.ofNat c.toNat := by
  induction cs with
  | nil => rfl
  | cons c cs ih =>
    obtain ⟨first, others⟩ := forall_mem_cons.1 ascii
    have one : String.utf8EncodeChar c = [UInt8.ofNat c.toNat] := by
      have small : c.toNat ≤ 127 := Nat.le_of_lt_succ first
      simp [String.utf8EncodeChar, small]
    rw [bytesOf, flatMap_cons, one, map_cons, ← ih others]
    rfl

theorem headChar?_ascii {c : Char} (ascii : c.toNat < 128) (r : List UInt8) :
    headChar? (UInt8.ofNat c.toNat) r = some (c, 0) := by
  have number : (UInt8.ofNat c.toNat).toNat = c.toNat := by
    rw [UInt8.toNat_ofNat', Nat.mod_eq_of_lt (by omega)]
  have small : UInt8.ofNat c.toNat < 0x80 := by
    rw [UInt8.lt_iff_toNat_lt, number]
    exact ascii
  have valid : c.toNat.isValidChar := c.valid
  simp [headChar?, leadOf?, small, number, withTail, valid]

theorem piecesFrom_ascii {cs : List Char} (ascii : ∀ c ∈ cs, c.toNat < 128) :
    piecesFrom cs.length (cs.map fun c => UInt8.ofNat c.toNat) = cs.map .char := by
  induction cs with
  | nil => rfl
  | cons c cs ih =>
    obtain ⟨first, others⟩ := forall_mem_cons.1 ascii
    rw [length_cons, map_cons, piecesFrom, headChar?_ascii first, map_cons, ← ih others]
    rfl

theorem ofBytes_bytesOf {s : String} (ascii : ∀ c ∈ s.toList, c.toNat < 128) : ofBytes (bytesOf s.toList) = s := by
  rw [bytesOf_ascii ascii, ofBytes, pieces, length_map, piecesFrom_ascii ascii, map_map]
  exact (congrArg String.ofList (map_id _)).trans String.ofList_toList

end Text

/-! ### Paths -/

namespace Url

theorem unescape?_eq {bs : List UInt8} (plain : percent ∉ bs) : unescape? false bs = some bs := by
  induction bs with
  | nil => rfl
  | cons b r ih =>
    rw [mem_cons, not_or] at plain
    rw [unescape?.eq_def]
    simp [Ne.symm plain.1, ih plain.2]

/-- A path without escapes is matched as it is. -/
theorem routePath_eq {path : List UInt8} (plain : percent ∉ path) : routePath path = path := by
  simp only [routePath, unescape?_eq plain, ite_self]

end Url

namespace Route

theorem after?_append (lead : String) (rest : List UInt8) :
    after? lead (Text.bytesOf lead.toList ++ rest) = some rest := by
  have first : (Text.bytesOf lead.toList).isPrefixOf (Text.bytesOf lead.toList ++ rest) := by simp
  rw [after?, if_pos first, drop_left]

theorem of_run {id : List UInt8} (named : id ≠ []) (one : slash ∉ id) :
    of "GET" (Text.bytesOf "/v1/runs/".toList ++ id) = .found (.runs (.one id)) := by
  have lead : Text.bytesOf "/v1/runs/".toList = Text.bytesOf "/v1/".toList ++ Text.bytesOf "runs/".toList := by decide
  have known : knownMethods.contains "GET" := by decide
  -- The other paths differ in their second byte or in their first, or they end before the id.
  have health : Text.bytesOf "/v1/".toList ++ (Text.bytesOf "runs/".toList ++ id) ≠ Text.bytesOf "/healthz".toList :=
    fun same => absurd (congrArg (·[1]?) same) (show some (0x76 : UInt8) ≠ some 0x68 by decide)
  have lineage : Text.bytesOf "runs/".toList ++ id ≠ Text.bytesOf "lineage".toList :=
    fun same => absurd (congrArg List.head? same) (show some (0x72 : UInt8) ≠ some 0x6c by decide)
  have events : Text.bytesOf "runs/".toList ++ id ≠ Text.bytesOf "events".toList :=
    fun same => absurd (congrArg List.head? same) (show some (0x72 : UInt8) ≠ some 0x65 by decide)
  have runs : Text.bytesOf "runs/".toList ++ id ≠ Text.bytesOf "runs".toList :=
    fun same => absurd (congrArg (·[4]?) same) (show some (0x2f : UInt8) ≠ none by decide)
  have plain : (id.isEmpty || id.contains slash) = false := by simp [named, one]
  rw [lead, append_assoc, of, known, if_neg health, after?_append]
  simp only [Bool.not_true, Bool.false_eq_true, if_false, ofVersion1, lineage, events, runs, after?_append, plain]
  rfl

end Route

/-! ### Ids -/

namespace RunId

/-- The characters of ids: hexadecimal digits in lower case, and hyphens. -/
def alphabet : List Char := "0123456789abcdef-".toList

theorem hex_subset (width n : Nat) : Text.hex width n ⊆ alphabet := by
  have digits : ∀ k < 16, Text.hexDigit k ∈ alphabet := by decide
  induction width generalizing n with
  | zero => exact nil_subset _
  | succ width ih =>
    refine append_subset.2 ⟨ih _, cons_subset.2 ⟨?_, nil_subset _⟩⟩
    exact digits _ (Nat.mod_lt _ (by omega))

theorem ofNumber_subset (n : Nat) : (ofNumber n).toList ⊆ alphabet := by
  have variant : Text.hexDigit (8 + (n >>> 60) % 4) ∈ alphabet := by
    have digits : ∀ k < 4, Text.hexDigit (8 + k) ∈ alphabet := by decide
    exact digits _ (Nat.mod_lt _ (by omega))
  have hyphen : '-' ∈ alphabet := by decide
  have version : '4' ∈ alphabet := by decide
  rw [ofNumber, String.toList_ofList]
  simp only [append_subset, cons_subset, hex_subset, variant, hyphen, version, and_true]

theorem ofNumber_ascii (n : Nat) : ∀ c ∈ (ofNumber n).toList, c.toNat < 128 := by
  have ascii : alphabet.all (·.toNat < 128) := by decide
  intro c member
  exact of_decide_eq_true (all_eq_true.1 ascii c (ofNumber_subset n member))

theorem ofNumber_ne_nil (n : Nat) : Text.bytesOf (ofNumber n).toList ≠ [] := by
  rw [Text.bytesOf_ascii (ofNumber_ascii n), ofNumber, String.toList_ofList]
  simp

/-- No character of an id is `/` or `%`. -/
theorem not_mem_ofNumber (n : Nat) :
    Route.slash ∉ Text.bytesOf (ofNumber n).toList ∧ Url.percent ∉ Text.bytesOf (ofNumber n).toList := by
  have other {b : UInt8} (absent : b ∉ alphabet.map fun c => UInt8.ofNat c.toNat) :
      b ∉ Text.bytesOf (ofNumber n).toList := by
    rw [Text.bytesOf_ascii (ofNumber_ascii n)]
    exact fun there => absent (map_subset _ (ofNumber_subset n) there)
  exact ⟨other (by decide), other (by decide)⟩

/-- The path of a run leads to the run. -/
theorem route_of_run (n : Nat) :
    Route.of "GET" (Url.routePath (Text.bytesOf ("/v1/runs/" ++ ofNumber n).toList)) =
      .found (.runs (.one (Text.bytesOf (ofNumber n).toList))) := by
  obtain ⟨slash, percent⟩ := not_mem_ofNumber n
  have plain : Url.percent ∉ Text.bytesOf "/v1/runs/".toList ++ Text.bytesOf (ofNumber n).toList := by
    rw [mem_append, not_or]
    exact ⟨by decide, percent⟩
  rw [String.toList_append, Text.bytesOf_append, Url.routePath_eq plain, Route.of_run (ofNumber_ne_nil n) slash]

end RunId
end TableLineage
