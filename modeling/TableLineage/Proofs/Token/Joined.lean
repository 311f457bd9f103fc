import TableLineage.Proofs.Text.Slice
import TableLineage.Proofs.Token.Blank

/-! Texts that are scanned one after the other. A line break ends every piece in front of it, so the
scan of a text goes on after it with the scan of what follows, moved to where that stands. -/
namespace TableLineage

open List
open Position (past)

/-- The same point of a text in front of which `lines` lines and `bytes` bytes were put. -/
def Position.shift (lines bytes : Nat) (p : Position) : Position := ⟨p.line + lines, p.column, p.offset + bytes⟩

def Span.shift (lines bytes : Nat) (s : Span) : Span := ⟨s.start.shift lines bytes, s.stop.shift lines bytes⟩

def Token.shift (lines bytes : Nat) (t : Token) : Token := { t with span := t.span.shift lines bytes }

theorem Token.toLexeme_shift (lines bytes : Nat) (t : Token) : (t.shift lines bytes).toLexeme = t.toLexeme := rfl

namespace Position

variable (lines bytes : Nat) (p : Position)

theorem step_shift (c : Char) : (p.shift lines bytes).step c = (p.step c).shift lines bytes := by
  unfold step shift
  split
  · simp [Nat.add_right_comm]
  · simp [Nat.add_right_comm]

theorem after_shift (cs : List Char) : (p.shift lines bytes).after cs = (p.after cs).shift lines bytes := by
  induction cs generalizing p with
  | nil => rfl
  | cons c cs ih => rw [after_cons, after_cons, step_shift, ih]

end Position

namespace Scan

/-- A scan further down a text. -/
def shift (lines bytes : Nat) (s : Scan) : Scan :=
  ⟨s.tokens.map (Token.shift lines bytes), s.comments.map fun k => { k with span := k.span.shift lines bytes },
    s.errors.map fun e => { e with pos := e.pos.shift lines bytes }⟩

theorem noting_shift (lines bytes : Nat) (p : Position) (fault : Option ScanFault) (s : Scan) :
    noting (p.shift lines bytes) fault (s.shift lines bytes) = (noting p fault s).shift lines bytes := by
  cases fault <;> rfl

/-- Pieces do not depend on where they stand. -/
theorem pieces_shift (lines bytes n : Nat) (p : Position) (cs : List Char) :
    pieces n (p.shift lines bytes) cs = (pieces n p cs).shift lines bytes := by
  induction n generalizing p cs with
  | zero => rfl
  | succ n ih =>
    cases cs with
    | nil => rfl
    | cons c r =>
      simp only [pieces]
      split
      · rfl
      split
      · rw [Position.step_shift, ih]
      · rw [Position.after_shift, ih, ← noting_shift]
        rfl
      · rw [Position.after_shift, ih, ← noting_shift]
        rfl

/-- As many pieces as there are characters are enough. -/
theorem pieces_eq_of_enough {n m : Nat} {cs : List Char} (enough : cs.length ≤ n) (enough' : cs.length ≤ m)
    (p : Position) : pieces n p cs = pieces m p cs := by
  induction n generalizing m p cs with
  | zero =>
    obtain rfl := length_eq_zero_iff.1 (Nat.le_zero.1 enough)
    cases m <;> rfl
  | succ n ih =>
    cases cs with
    | nil => cases m <;> rfl
    | cons c r =>
      cases m with
      | zero => cases enough'
      | succ m =>
        have shorter {k size : Nat} (some : 0 < size) (few : (c :: r).length ≤ k + 1) : ((c :: r).drop size).length ≤ k := by
          simp only [length_drop, length_cons] at few ⊢
          omega
        simp only [pieces]
        split
        · rfl
        split
        · exact ih (Nat.le_of_succ_le_succ enough) (Nat.le_of_succ_le_succ enough') _
        · next found =>
          have some := comment_size_pos found
          rw [ih (shorter some enough) (shorter some enough')]
        · next found =>
          obtain rfl := token_of_piece found
          have some := token_size_pos c r
          rw [ih (shorter some enough) (shorter some enough')]

/-- A piece that is complete, and no token without a meaning. -/
def Piece.Whole : Piece → Prop
  | .space => True
  | .comment _ _ fault => fault = none
  | .token t => t.fault = none ∧ t.kind ≠ .illegal

def Piece.size : Piece → Nat
  | .space => 1
  | .comment _ size _ => size
  | .token t => t.size

theorem Piece.Whole.size_le {c : Char} {r : List Char} (whole : (piece c r).Whole) : (piece c r).size ≤ r.length + 1 := by
  cases found : piece c r with
  | space => exact Nat.succ_le_succ (Nat.zero_le _)
  | comment style size fault =>
    unfold piece at found
    split at found
    · cases found
    split at found
    · cases found
      exact (takeWhile_sublist _).length_le
    · cases found
      exact Nat.succ_le_succ (Nat.succ_le_succ (blockComment_size_le 1 _))
    · cases found
  | token t =>
    rw [found] at whole
    obtain rfl := token_of_piece found
    exact token_size_le whole.1

/-- A line break ends every piece in front of it. -/
theorem Piece.Whole.append_break {c : Char} {r : List Char} (whole : (piece c r).Whole) (ext : List Char) :
    piece c (r ++ '\n' :: ext) = piece c r := by
  cases found : piece c r with
  | space =>
    unfold piece
    rw [if_pos (isSpace_of_piece found)]
  | comment style size fault =>
    rw [found] at whole
    unfold piece at found ⊢
    split at found
    · cases found
    next notSpace =>
    rw [if_neg notSpace]
    split at found
    · cases found
      exact congrArg (fun cs : List Char => Piece.comment .line cs.length none) (takeWhile_append_stop rfl ('-' :: '-' :: _) ext)
    · next _ inner =>
      generalize ended : blockComment 1 inner = result at found
      obtain ⟨size, closed⟩ := result
      cases found
      obtain rfl : closed = true := by simpa [Piece.Whole] using whole
      simp only [cons_append, blockComment_append ended]
    · cases found
  | token t =>
    rw [found] at whole
    exact piece_append_blank rfl found whole.1 whole.2 ext

/-- A scan that goes on where the text of another ended. -/
def followedBy (s t : Scan) : Scan :=
  ⟨s.tokens.dropLast ++ t.tokens, s.comments ++ t.comments, s.errors ++ t.errors⟩

theorem tokens_ne_nil (n : Nat) (p : Position) (cs : List Char) : (pieces n p cs).tokens ≠ [] := by
  induction n generalizing p cs with
  | zero => simp [pieces, ending]
  | succ n ih =>
    cases cs with
    | nil => simp [pieces, ending]
    | cons c r =>
      simp only [pieces]
      split
      · simp [ending]
      split
      · exact ih _ _
      · simpa using ih _ _
      · simp

/-- No fault is noted and all tokens have a meaning. -/
structure Sound (s : Scan) : Prop where
  clean : s.errors = []
  known : ∀ t ∈ s.tokens, t.kind ≠ .illegal

theorem Sound.noting {p : Position} {fault : Option ScanFault} {s : Scan} (sound : (noting p fault s).Sound) :
    fault = none ∧ s.Sound := by
  cases fault with
  | none => exact ⟨rfl, sound⟩
  | some fault => cases sound.clean

/-- The scan of a text goes on after a line break as if it started there. -/
theorem pieces_append_break {n m m' : Nat} {p : Position} {cs ext : List Char} (enough : cs.length ≤ n)
    (enough' : (cs ++ '\n' :: ext).length ≤ m) (enough'' : ext.length < m') (clear : nul ∉ cs)
    (sound : (pieces n p cs).Sound) :
    pieces m p (cs ++ '\n' :: ext) = (pieces n p cs).followedBy (pieces m' (p.after cs) ('\n' :: ext)) := by
  induction n generalizing m p cs with
  | zero =>
    obtain rfl := length_eq_zero_iff.1 (Nat.le_zero.1 enough)
    simpa [pieces, ending, followedBy] using pieces_eq_of_enough enough' enough'' p
  | succ n ih =>
    cases cs with
    | nil => simpa [pieces, ending, followedBy] using pieces_eq_of_enough enough' enough'' p
    | cons c r =>
      cases m with
      | zero => cases enough'
      | succ m =>
        have notNul : c ≠ nul := fun same => clear (same ▸ mem_cons_self)
        have further (size : Nat) (some : 0 < size) (fits : size ≤ r.length + 1)
            (sound : (pieces n (p.after ((c :: r).take size)) ((c :: r).drop size)).Sound) :
            pieces m (p.after ((c :: r).take size)) ((c :: r).drop size ++ '\n' :: ext) =
              (pieces n (p.after ((c :: r).take size)) ((c :: r).drop size)).followedBy
                (pieces m' (p.after (c :: r)) ('\n' :: ext)) := by
          have inner : nul ∉ (c :: r).drop size := fun member => clear (mem_of_mem_drop member)
          have next := ih (m := m) ?_ ?_ inner sound
          · rwa [← Position.after_append, take_append_drop] at next
          · simp only [length_drop, length_cons] at enough ⊢
            omega
          · simp only [length_append, length_drop, length_cons] at enough' ⊢
            omega
        have taken {size : Nat} (fits : size ≤ r.length + 1) :
            (c :: (r ++ '\n' :: ext)).take size = (c :: r).take size ∧
              (c :: (r ++ '\n' :: ext)).drop size = (c :: r).drop size ++ '\n' :: ext :=
          ⟨take_append_of_le_length (show size ≤ (c :: r).length from fits),
            drop_append_of_le_length (show size ≤ (c :: r).length from fits)⟩
        rw [pieces, if_neg notNul] at sound ⊢
        rw [cons_append, pieces, if_neg notNul]
        cases found : piece c r with
        | space =>
          have whole : (piece c r).Whole := found ▸ trivial
          simp only [whole.append_break, found] at sound ⊢
          exact ih (Nat.le_of_succ_le_succ enough) (Nat.le_of_succ_le_succ enough')
            (fun member => clear (mem_cons_of_mem c member)) sound
        | comment style size fault =>
          simp only [found] at sound
          obtain ⟨rfl, sound⟩ := sound.noting
          have whole : (piece c r).Whole := found ▸ rfl
          have fits : size ≤ r.length + 1 := by simpa [found, Piece.size] using whole.size_le
          have rest := further size (comment_size_pos found) fits ⟨sound.clean, sound.known⟩
          simp only [whole.append_break, found, taken fits, rest]
          rfl
        | token t =>
          simp only [found] at sound
          obtain ⟨closed, sound⟩ := sound.noting
          have whole : (piece c r).Whole := found ▸ ⟨closed, sound.known _ mem_cons_self⟩
          have fits : t.size ≤ r.length + 1 := by simpa [found, Piece.size] using whole.size_le
          have some : 0 < t.size := token_of_piece found ▸ token_size_pos c r
          have rest := further t.size some fits ⟨sound.clean, fun u member => sound.known u (mem_cons_of_mem _ member)⟩
          simp only [whole.append_break, found, taken fits, rest, closed, noting, followedBy,
            dropLast_cons_of_ne_nil (tokens_ne_nil _ _ _), cons_append]

theorem piece_semicolon (r : List Char) : piece ';' ('\n' :: r) = .token (.plain .semicolon [';']) := rfl

/-- After a line break, a semicolon and another line break a text is scanned on its own. -/
theorem pieces_semicolon (n : Nat) (p : Position) (cs : List Char) :
    ∃ j : Token, j.kind = .semicolon ∧ pieces (n + 3) p ('\n' :: ';' :: '\n' :: cs) =
      { pieces n (p.after ['\n', ';', '\n']) cs with
        tokens := j :: (pieces n (p.after ['\n', ';', '\n']) cs).tokens } := by
  have broken (n : Nat) (p : Position) (cs : List Char) : pieces (n + 1) p ('\n' :: cs) = pieces n (p.step '\n') cs := rfl
  refine ⟨⟨⟨.semicolon, ";", ";", false⟩, ⟨p.step '\n', (p.step '\n').step ';'⟩⟩, rfl, ?_⟩
  rw [broken, pieces, if_neg (by decide), piece_semicolon]
  simp only [Reading.plain, length_singleton, take_succ_cons, take_zero, drop_succ_cons, drop_zero,
    noting, broken, Position.after_cons, Position.after_nil]

/-- The point after a text, a line break, a semicolon and another line break is the start of a text
further down. -/
theorem past_semicolon (cs : List Char) : (past cs).after ['\n', ';', '\n'] =
    Position.start.shift (cs.count '\n' + 2) ((Text.bytesOf cs).length + 3) := by
  rw [Position.after_past]
  have bytes : (Text.bytesOf ['\n', ';', '\n']).length = 3 := rfl
  simp only [past, Position.start, Position.shift, Text.bytesOf_append, length_append, bytes, count_append,
    reverse_append]
  simp [Nat.add_comm, Nat.add_left_comm]

/-- A text, a semicolon on a line of its own, and another text: their tokens one after the other. -/
theorem ofText_joined {cs : List Char} (clear : nul ∉ cs) (sound : (ofText cs).Sound) (ds : List Char) :
    ∃ j : Token, j.kind = .semicolon ∧ ∃ moved,
      moved = (ofText ds).shift (cs.count '\n' + 2) ((Text.bytesOf cs).length + 3) ∧
      ofText (cs ++ '\n' :: ';' :: '\n' :: ds) = (ofText cs).followedBy { moved with tokens := j :: moved.tokens } := by
  obtain ⟨j, mark, rest⟩ := pieces_semicolon ds.length (past cs) ds
  refine ⟨j, mark, _, rfl, ?_⟩
  have start : Position.start.after cs = past cs := by
    rw [Position.start_eq_past, Position.after_past, nil_append]
  unfold ofText at sound ⊢
  have enough : (';' :: '\n' :: ds).length < ds.length + 3 := Nat.lt_succ_self _
  rw [pieces_append_break (Nat.le_refl _) (Nat.le_refl _) enough clear sound, start, rest, past_semicolon, pieces_shift]

end Scan
end TableLineage
