import TableLineage.Text.Utf8
import TableLineage.Token.Scan

/-! The layout of a scanned text: blanks, comments and tokens one after the other, up to the
end. Points are told here from the text in front of them, and not step by step. -/
namespace TableLineage

open List

namespace Position

/-- The point that `front` is all the text before. -/
def past (front : List Char) : Position :=
  ⟨1 + front.count '\n', 1 + (front.reverse.takeWhile (· ≠ '\n')).length, (Text.bytesOf front).length⟩

theorem start_eq_past : start = past [] := rfl

theorem step_past (front : List Char) (c : Char) : (past front).step c = past (front ++ [c]) := by
  have bytes : (Text.bytesOf (front ++ [c])).length = (Text.bytesOf front).length + c.utf8Size := by
    simp [Text.bytesOf, String.length_utf8EncodeChar]
  by_cases newline : c = '\n'
  · subst newline
    simp only [step, past, bytes, if_true]
    simp [Nat.add_assoc]
  · simp only [step, past, bytes, if_neg newline]
    simp [newline, Nat.add_comm]

theorem after_past (front cs : List Char) : (past front).after cs = past (front ++ cs) := by
  induction cs generalizing front with
  | nil => simp
  | cons c cs ih => rw [after_cons, step_past, ih, append_assoc, singleton_append]

end Position

namespace Scan

open Position (past)

/-! ### No piece is empty -/

theorem entered_pos (n : Nat) (c : Char) (cs : List Char) : 0 < (skipBytes (n + 1) (c :: cs)).2.1 := by
  rw [skipBytes]
  split <;> simp

theorem dollarQuoted_size_pos {tag : List Char} (some : tag ≠ []) (c : Char) (r : List Char) :
    0 < (dollarQuoted tag (c :: r)).size := by
  obtain ⟨n, length⟩ := Nat.exists_eq_add_one_of_ne_zero (mt length_eq_zero_iff.1 some)
  have entered := entered_pos n c r
  unfold dollarQuoted
  rw [length]
  generalize skipBytes (n + 1) (c :: r) = skipped at entered
  obtain ⟨stray, count, rest⟩ := skipped
  dsimp only at entered ⊢
  split
  · exact Nat.add_pos_left (Nat.add_pos_left entered _) _
  · exact Nat.add_pos_left entered _

variable {cs r : List Char} {c : Char} {n : Nat}

theorem tag?_ne_nil {tag : List Char} (found : tag? cs = some tag) : tag ≠ [] := by
  unfold tag? at found
  split at found
  · dsimp only at found
    split at found
    · cases found
      simp
    · cases found
  · cases found

/-- A number has a digit or a dot in front. -/
theorem number_ne_nil (starts : c.isDigit || (c = '.' && startsDigit r)) : number (c :: r) ≠ [] := by
  by_cases digit : c.isDigit
  · simp [number, digit]
  · obtain ⟨rfl, follows⟩ : c = '.' ∧ startsDigit r := by simpa [digit] using starts
    have other : r.head? ≠ some '.' := by
      cases r with
      | nil => simp
      | cons d r =>
        rintro same
        cases same
        cases follows
    simp [number, digit, fraction, other]

theorem symbol_size_pos {k : Kind} (found : symbol cs = some (k, n)) : 0 < n := by
  unfold symbol at found
  split at found <;> cases found <;> decide

theorem token_size_pos (c : Char) (r : List Char) : 0 < (token c r).size := by
  unfold token
  dsimp only
  split
  · exact Nat.succ_pos _
  split
  · exact Nat.succ_pos _
  split
  · split
    · exact Nat.succ_pos _
    · split
      · next found => exact dollarQuoted_size_pos (tag?_ne_nil found) c r
      · exact Nat.one_pos
  split
  · next starts => exact length_pos_iff.2 (number_ne_nil starts)
  split
  · next starts =>
    have head : isNamePart c := by simp [isNamePart, starts]
    simp [Reading.plain, head]
  · split
    · next found =>
      have size := symbol_size_pos found
      simp only [Reading.plain, length_take, length_cons]
      omega
    · exact Nat.one_pos

theorem ofWord_ne_eof (w : String) : Kind.ofWord w ≠ .eof := by
  unfold Kind.ofWord
  cases Keyword.ofWord? w <;> simp

theorem symbol_kind_ne_eof {k : Kind} (found : symbol cs = some (k, n)) : k ≠ .eof := by
  unfold symbol at found
  split at found <;> cases found <;> decide

/-- The end of the text is no token in it. -/
theorem token_kind_ne_eof (c : Char) (r : List Char) : (token c r).kind ≠ .eof := by
  unfold token
  dsimp only
  split
  · simp
  split
  · simp
  split
  · split
    · simp [Reading.plain]
    · split
      · unfold dollarQuoted
        dsimp only
        split <;> simp
      · simp [Reading.plain]
  split
  · simp [Reading.plain]
  split
  · simpa only [Reading.plain] using ofWord_ne_eof _
  · split
    · next found => exact symbol_kind_ne_eof found
    · simp [Reading.plain]

theorem comment_size_pos {style : Comment.Style} {size : Nat} {fault : Option ScanFault}
    (found : piece c r = .comment style size fault) : 0 < size := by
  unfold piece at found
  split at found
  · cases found
  split at found
  · cases found
    have dash : '-' ≠ '\n' ∧ '-' ≠ nul := by decide
    simp [dash]
  · cases found
    exact Nat.succ_pos _
  · cases found

theorem token_of_piece {t : Reading} (found : piece c r = .token t) : t = token c r := by
  unfold piece at found
  split at found
  · cases found
  split at found
  · cases found
  · cases found
  · exact (Piece.token.inj found).symm

theorem isSpace_of_piece (found : piece c r = .space) : isSpace c := by
  unfold piece at found
  split at found
  · assumption
  split at found <;> cases found

/-! ### One piece after the other -/

/-- The tokens and comments of the text `cs`, with `front` before it. -/
inductive Laid : List Char → List Char → List Token → List Comment → Prop
  /-- Nothing is left, or a NUL cuts the text off. -/
  | stop {front cs : List Char} (stopped : ∀ c ∈ cs.head?, c = nul) :
      Laid front cs [⟨⟨.eof, "", "", false⟩, ⟨past front, past front⟩⟩] []
  | space {front cs : List Char} {c : Char} {ts : List Token} {ks : List Comment} (blank : isSpace c)
      (rest : Laid (front ++ [c]) cs ts ks) : Laid front (c :: cs) ts ks
  | comment {front text cs : List Char} {ts : List Token} {ks : List Comment} (style : Comment.Style)
      (some : text ≠ []) (rest : Laid (front ++ text) cs ts ks) :
      Laid front (text ++ cs) ts (⟨style, String.ofList text, ⟨past front, past (front ++ text)⟩⟩ :: ks)
  | token {front text cs : List Char} {ts : List Token} {ks : List Comment} {l : Lexeme}
      (kind : l.kind ≠ .eof) (raw : l.raw = String.ofList text) (some : text ≠ [])
      (rest : Laid (front ++ text) cs ts ks) :
      Laid front (text ++ cs) (⟨l, ⟨past front, past (front ++ text)⟩⟩ :: ts) ks

@[simp] theorem noting_tokens (p : Position) (fault : Option ScanFault) (s : Scan) :
    (noting p fault s).tokens = s.tokens := by
  cases fault <;> rfl

@[simp] theorem noting_comments (p : Position) (fault : Option ScanFault) (s : Scan) :
    (noting p fault s).comments = s.comments := by
  cases fault <;> rfl

/-- Enough pieces lay out the whole text: each of them leaves less of it. -/
theorem pieces_laid (enough : cs.length ≤ n) (front : List Char) :
    Laid front cs (pieces n (past front) cs).tokens (pieces n (past front) cs).comments := by
  induction n generalizing cs front with
  | zero =>
    obtain rfl := length_eq_zero_iff.1 (Nat.le_zero.1 enough)
    exact .stop (by simp)
  | succ n ih =>
    cases cs with
    | nil => exact .stop (by simp)
    | cons c r =>
      have shorter (size : Nat) (some : 0 < size) : ((c :: r).drop size).length ≤ n := by
        simp only [length_drop, length_cons] at enough ⊢
        omega
      have taken {size : Nat} (some : 0 < size) : (c :: r).take size ≠ [] := by
        simpa using Nat.ne_of_gt some
      simp only [pieces]
      split
      · next cut => exact .stop (by simpa using cut)
      split
      · next found =>
        rw [Position.step_past]
        exact .space (isSpace_of_piece found) (ih (by simpa using enough) _)
      · next style size fault found =>
        have some := comment_size_pos found
        have rest := ih (shorter size some) (front ++ (c :: r).take size)
        have laid := Laid.comment style (taken some) rest
        rw [take_append_drop] at laid
        simpa only [noting_tokens, noting_comments, Position.after_past] using laid
      · next t found =>
        obtain rfl := token_of_piece found
        have some := token_size_pos c r
        have rest := ih (shorter _ some) (front ++ (c :: r).take (token c r).size)
        have laid := rest.token (l := ⟨(token c r).kind, String.ofList (token c r).literal,
          String.ofList ((c :: r).take (token c r).size), (token c r).quoted⟩) (token_kind_ne_eof c r) rfl (taken some)
        rw [take_append_drop] at laid
        simpa only [noting_tokens, noting_comments, Position.after_past] using laid

theorem ofText_laid (text : List Char) : Laid [] text (ofText text).tokens (ofText text).comments :=
  pieces_laid (Nat.le_refl _) []

end Scan
end TableLineage
