import TableLineage.Proofs.Text.Slice
import TableLineage.Proofs.Token.Layout

/-! Scanning loses nothing: tokens and comments are stretches of the text in their order, with
nothing but blanks between them, and their points are those that the text gives. -/
namespace TableLineage

open List
open Position (past)

namespace Span

/-- The text has `raw` at the range, whose points are told by what stands before them. -/
def Holds (span : Span) (text : List Char) (raw : String) : Prop :=
  ∃ front back, text = front ++ (raw.toList ++ back) ∧ span = ⟨past front, past (front ++ raw.toList)⟩

/-- A range ends before another starts, in bytes. -/
def Precedes (s t : Span) : Prop := s.stop.offset ≤ t.start.offset

/-- The byte with the number `i` lies in the range. -/
def Covers (s : Span) (i : Nat) : Prop := s.start.offset ≤ i ∧ i < s.stop.offset

end Span

namespace Scan

/-- The bytes of space, tab, line feed, carriage return and form feed. -/
def blankBytes : List UInt8 := [0x20, 0x09, 0x0a, 0x0d, 0x0c]

theorem bytesOf_space {c : Char} (blank : isSpace c) : ∃ b ∈ blankBytes, Text.bytesOf [c] = [b] := by
  have cases : c = ' ' ∨ c = '\t' ∨ c = '\n' ∨ c = '\r' ∨ c = '\x0c' := by
    simpa [isSpace, or_assoc] using blank
  rcases cases with rfl | rfl | rfl | rfl | rfl
  · exact ⟨0x20, by decide, rfl⟩
  · exact ⟨0x09, by decide, rfl⟩
  · exact ⟨0x0a, by decide, rfl⟩
  · exact ⟨0x0d, by decide, rfl⟩
  · exact ⟨0x0c, by decide, rfl⟩

namespace Laid

variable {front cs : List Char} {ts : List Token} {ks : List Comment} (laid : Laid front cs ts ks)

include laid

/-- The last token is the end of the text, and the others are not. -/
theorem exists_eof : ∃ tokens eof, ts = tokens ++ [eof] ∧ eof.kind = .eof ∧
    (∀ t ∈ tokens, t.kind ≠ .eof ∧ t.raw ≠ "") ∧
    ∃ middle back, cs = middle ++ back ∧ eof.span.start = past (front ++ middle) ∧ ∀ c ∈ back.head?, c = nul := by
  induction laid with
  | stop stopped => exact ⟨[], _, rfl, rfl, by simp, [], _, rfl, by simp, stopped⟩
  | @space front cs c _ _ _ _ ih =>
    obtain ⟨tokens, eof, rfl, kind, others, middle, back, rfl, start, stopped⟩ := ih
    exact ⟨tokens, eof, rfl, kind, others, c :: middle, back, rfl, by simpa using start, stopped⟩
  | @comment front text _ _ _ _ _ _ ih =>
    obtain ⟨tokens, eof, rfl, kind, others, middle, back, rfl, start, stopped⟩ := ih
    exact ⟨tokens, eof, rfl, kind, others, text ++ middle, back, by simp, by simpa using start, stopped⟩
  | @token front text _ _ _ l notEof raw some _ ih =>
    obtain ⟨tokens, eof, rfl, kind, others, middle, back, rfl, start, stopped⟩ := ih
    have first : l.raw ≠ "" := by
      rw [raw]
      simpa using some
    refine ⟨_ :: tokens, eof, rfl, kind, ?_, text ++ middle, back, by simp, by simpa using start, stopped⟩
    simpa [notEof, first] using others

theorem holds_token : ∀ t ∈ ts, t.span.Holds (front ++ cs) t.raw := by
  induction laid with
  | @stop front cs =>
    intro t member
    obtain rfl := mem_singleton.1 member
    exact ⟨front, cs, by simp, by simp⟩
  | space _ _ ih => simpa using ih
  | comment _ _ _ ih => simpa using ih
  | token _ raw _ _ ih =>
    intro t member
    obtain rfl | later := mem_cons.1 member
    · exact ⟨_, _, by rw [raw, String.toList_ofList], by rw [raw, String.toList_ofList]⟩
    · simpa using ih t later

theorem le_token : ∀ t ∈ ts, (past front).offset ≤ t.span.start.offset := by
  induction laid with
  | stop => simp
  | space _ _ ih | comment _ _ _ ih =>
    intro t member
    have := ih t member
    simp only [past, Text.bytesOf_append, length_append] at this ⊢
    omega
  | token _ _ _ _ ih =>
    intro t member
    obtain rfl | later := mem_cons.1 member
    · exact Nat.le_refl _
    · have := ih t later
      simp only [past, Text.bytesOf_append, length_append] at this ⊢
      omega

theorem le_comment : ∀ k ∈ ks, (past front).offset ≤ k.span.start.offset := by
  induction laid with
  | stop => simp
  | space _ _ ih | token _ _ _ _ ih =>
    intro k member
    have := ih k member
    simp only [past, Text.bytesOf_append, length_append] at this ⊢
    omega
  | comment _ _ _ ih =>
    intro k member
    obtain rfl | later := mem_cons.1 member
    · exact Nat.le_refl _
    · have := ih k later
      simp only [past, Text.bytesOf_append, length_append] at this ⊢
      omega

theorem tokens_inOrder : ts.Pairwise fun a b => a.span.Precedes b.span := by
  induction laid with
  | stop => exact pairwise_singleton _ _
  | space _ _ ih | comment _ _ _ ih => exact ih
  | token _ _ _ rest ih => exact .cons rest.le_token ih

/-- The piece in front comes before all pieces of the other sort. -/
theorem apart : ∀ t ∈ ts, ∀ k ∈ ks, t.span.Precedes k.span ∨ k.span.Precedes t.span := by
  induction laid with
  | stop => simp
  | space _ _ ih => exact ih
  | token _ _ _ rest ih =>
    intro t member k other
    obtain rfl | later := mem_cons.1 member
    · exact .inl (rest.le_comment k other)
    · exact ih t later k other
  | comment _ _ rest ih =>
    intro t member k other
    obtain rfl | later := mem_cons.1 other
    · exact .inr (rest.le_token t member)
    · exact ih t member k later

theorem comment_precedes_last {last : Token} (final : ts.getLast? = some last) :
    ∀ k ∈ ks, k.span.Precedes last.span := by
  induction laid with
  | stop => simp
  | space _ _ ih => exact ih final
  | comment _ _ rest ih =>
    intro k member
    obtain rfl | later := mem_cons.1 member
    · exact rest.le_token last (mem_of_getLast? final)
    · exact ih final k later
  | token _ _ _ rest ih =>
    obtain ⟨tokens, eof, rfl, -⟩ := rest.exists_eof
    exact ih (by simpa [getLast?_cons] using final)

/-- Every byte in front of the last token is in a token, in a comment, or blank. -/
theorem covered_or_blank {i : Nat} (since : (past front).offset ≤ i) (before : ∃ t ∈ ts, i < t.span.start.offset) :
    (∃ t ∈ ts, t.span.Covers i) ∨ (∃ k ∈ ks, k.span.Covers i) ∨
      ∃ b ∈ blankBytes, (Text.bytesOf (front ++ cs))[i]? = some b := by
  induction laid with
  | @stop front =>
    obtain ⟨t, member, less⟩ := before
    obtain rfl := mem_singleton.1 member
    exact absurd since (Nat.not_le.2 less)
  | @space front cs c _ _ blank _ ih =>
    obtain ⟨b, among, byte⟩ := bytesOf_space blank
    by_cases here : i = (past front).offset
    · refine .inr (.inr ⟨b, among, ?_⟩)
      rw [← singleton_append, Text.bytesOf_append, Text.bytesOf_append, byte, here]
      simp [past]
    · have later : (past (front ++ [c])).offset ≤ i := by
        simp only [past, Text.bytesOf_append, byte, length_append, length_singleton] at since here ⊢
        omega
      simpa using ih later before
  | @comment front text _ _ _ _ _ _ ih =>
    by_cases here : i < (past (front ++ text)).offset
    · exact .inr (.inl ⟨_, mem_cons_self, since, here⟩)
    · obtain found | ⟨k, member, covers⟩ | blank := ih (Nat.not_lt.1 here) before
      · exact .inl found
      · exact .inr (.inl ⟨k, mem_cons_of_mem _ member, covers⟩)
      · exact .inr (.inr (by simpa using blank))
  | @token front text _ ts _ _ _ _ _ _ ih =>
    by_cases here : i < (past (front ++ text)).offset
    · exact .inl ⟨_, mem_cons_self, since, here⟩
    · have later : ∃ t ∈ ts, i < t.span.start.offset := by
        obtain ⟨t, member, less⟩ := before
        obtain rfl | later := mem_cons.1 member
        · exact absurd since (Nat.not_le.2 less)
        · exact ⟨t, later, less⟩
      obtain ⟨t, member, covers⟩ | found | blank := ih (Nat.not_lt.1 here) later
      · exact .inl ⟨t, mem_cons_of_mem _ member, covers⟩
      · exact .inr (.inl found)
      · exact .inr (.inr (by simpa using blank))

end Laid

end Scan

end TableLineage
