import TableLineage.Text.Utf8

/-! Texts and their bytes: what stands between two points of a text is the slice between their
offsets. -/
namespace TableLineage.Text

open List

@[simp] theorem bytesOf_append (cs ds : List Char) : bytesOf (cs ++ ds) = bytesOf cs ++ bytesOf ds :=
  flatMap_append

theorem length_bytesOf_cons (c : Char) (cs : List Char) :
    (bytesOf (c :: cs)).length = c.utf8Size + (bytesOf cs).length := by
  simp [bytesOf, String.length_utf8EncodeChar]

theorem bytesOf_pos {cs : List Char} (some : cs ≠ []) : 0 < (bytesOf cs).length := by
  cases cs with
  | nil => exact absurd rfl some
  | cons c cs =>
    have := c.utf8Size_pos
    rw [length_bytesOf_cons]
    omega

theorem dropBytes_add (front rest : List Char) (n : Nat) :
    dropBytes ((bytesOf front).length + n) (front ++ rest) = dropBytes n rest := by
  induction front with
  | nil => simp [bytesOf]
  | cons c front ih =>
    have some := c.utf8Size_pos
    rw [length_bytesOf_cons, cons_append, dropBytes, if_neg (by omega), Nat.add_assoc, Nat.add_sub_cancel_left, ih]

theorem dropBytes_append (front rest : List Char) : dropBytes (bytesOf front).length (front ++ rest) = rest := by
  have none : dropBytes 0 rest = rest := by cases rest <;> rfl
  exact (dropBytes_add front rest 0).trans none

theorem takeBytes_append (front rest : List Char) : takeBytes (bytesOf front).length (front ++ rest) = front := by
  induction front with
  | nil => cases rest <;> simp [bytesOf, takeBytes]
  | cons c front ih =>
    have some := c.utf8Size_pos
    rw [length_bytesOf_cons, cons_append, takeBytes, if_neg (by omega), Nat.add_sub_cancel_left, ih]

/-- Of two texts at the front of a third, the one with more bytes goes on after the other. -/
theorem exists_append_of_bytes_le {a b x y : List Char} (same : a ++ x = b ++ y)
    (less : (bytesOf a).length ≤ (bytesOf b).length) : ∃ middle, b = a ++ middle := by
  obtain ⟨middle, longer, _⟩ | ⟨middle, shorter, _⟩ := append_eq_append_iff.1 same
  · exact ⟨middle, longer⟩
  · cases middle with
    | nil => exact ⟨[], by simpa using shorter.symm⟩
    | cons c middle =>
      have : 0 < (bytesOf (c :: middle)).length := bytesOf_pos (by simp)
      rw [shorter, bytesOf_append, length_append] at less
      omega

/-- The text between two points is what stands between them. -/
theorem slice_holds {text front middle back : List Char} (split : text = front ++ (middle ++ back)) :
    slice text (bytesOf front).length (bytesOf (front ++ middle)).length = middle := by
  rw [slice, split, dropBytes_append, bytesOf_append, length_append, Nat.add_sub_cancel_left, takeBytes_append]

/-- What stands between two points does not change when a text is put in front. -/
theorem slice_add (front text : List Char) (start stop : Nat) :
    slice (front ++ text) (start + (bytesOf front).length) (stop + (bytesOf front).length) = slice text start stop := by
  rw [slice, slice, Nat.add_comm start, dropBytes_add, Nat.add_comm stop, Nat.add_sub_add_left]

/-- What stands between two points does not change when the text goes on. -/
theorem slice_append {text front front' back back' : List Char} (split : text = front ++ back)
    (split' : text = front' ++ back') (more : List Char) :
    slice (text ++ more) (bytesOf front).length (bytesOf front').length =
      slice text (bytesOf front).length (bytesOf front').length := by
  by_cases less : (bytesOf front).length ≤ (bytesOf front').length
  · obtain ⟨middle, rfl⟩ := exists_append_of_bytes_le (split.symm.trans split') less
    rw [append_assoc] at split'
    have longer : text ++ more = front ++ (middle ++ (back' ++ more)) := by
      rw [split', append_assoc, append_assoc]
    rw [slice_holds split', slice_holds longer]
  · have none (cs : List Char) : takeBytes 0 cs = [] := by cases cs <;> rfl
    rw [slice, slice, Nat.sub_eq_zero_of_le (by omega), none, none]

end TableLineage.Text
