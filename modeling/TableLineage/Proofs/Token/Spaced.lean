import TableLineage.Proofs.Text.Slice
import TableLineage.Proofs.Token.Blank

/-! Lexemes written with single blanks between them. A blank ends whatever token stands in
front of it, so that scanning gives the lexemes back. -/
namespace TableLineage

open List
open Position (past)

/-! ### Lexemes on their own -/

/-- The lexeme that a text is as a whole, if it is just one. -/
def Lexeme.ofText? (raw : String) : Option Lexeme :=
  match raw.toList with
  | [] => none
  | c :: r =>
    match Scan.piece c r with
    | .token t =>
      if c ≠ Scan.nul ∧ t.kind ≠ .illegal ∧ t.size = r.length + 1 ∧ t.fault = none then
        some ⟨t.kind, String.ofList t.literal, raw, t.quoted⟩
      else none
    | _ => none

variable {ls : List Lexeme} {l : Lexeme}

namespace Lexeme

theorem exists_piece (whole : ofText? l.raw = some l) :
    ∃ c r t, l.raw.toList = c :: r ∧ Scan.piece c r = .token t ∧ c ≠ Scan.nul ∧ t.kind ≠ .illegal ∧
      t.size = r.length + 1 ∧ t.fault = none ∧ l = ⟨t.kind, String.ofList t.literal, l.raw, t.quoted⟩ := by
  unfold ofText? at whole
  split at whole
  · cases whole
  · next c r text =>
    split at whole
    · next t found =>
      split at whole
      · next conditions =>
        obtain ⟨some, known, full, closed⟩ := conditions
        exact ⟨c, r, t, text, found, some, known, full, closed, (Option.some.inj whole).symm⟩
      · cases whole
    · cases whole

theorem kind_ne_illegal (whole : ofText? l.raw = some l) : l.kind ≠ .illegal := by
  obtain ⟨_, _, _, _, _, _, known, _, _, same⟩ := exists_piece whole
  rw [same]
  exact known

/-- Lexemes with single blanks between them. -/
def spaced (ls : List Lexeme) : String := " ".intercalate (ls.map (·.raw))

theorem spaced_singleton (l : Lexeme) : spaced [l] = l.raw := String.intercalate_singleton

theorem toList_spaced_cons (l : Lexeme) (more : ls ≠ []) :
    (spaced (l :: ls)).toList = l.raw.toList ++ ' ' :: (spaced ls).toList := by
  rw [spaced, map_cons, String.intercalate_cons_of_ne_nil (by simpa using more)]
  simp [spaced]

/-- The tokens of lexemes that are written one blank apart, with `front` before them. -/
def placed (front : List Char) : List Lexeme → List Token
  | [] => []
  | l :: ls =>
    ⟨l, ⟨past front, past (front ++ l.raw.toList)⟩⟩ :: placed (front ++ (l.raw.toList ++ [' '])) ls

end Lexeme

namespace Scan

/-- A lexeme on its own is scanned as itself, at the end of a text and in front of a blank. -/
theorem pieces_whole (whole : Lexeme.ofText? l.raw = some l) {ext : List Char} (blank : ∀ c ∈ ext.head?, c = ' ')
    (n : Nat) (front : List Char) :
    pieces (n + 1) (past front) (l.raw.toList ++ ext) =
      { pieces n (past (front ++ l.raw.toList)) ext with
        tokens := ⟨l, ⟨past front, past (front ++ l.raw.toList)⟩⟩ ::
          (pieces n (past (front ++ l.raw.toList)) ext).tokens } := by
  obtain ⟨c, r, t, text, found, some, known, full, closed, same⟩ := Lexeme.exists_piece whole
  have found : piece c (r ++ ext) = .token t := by
    cases ext with
    | nil => simpa using found
    | cons d ext =>
      obtain rfl : d = ' ' := blank d rfl
      exact piece_append_blank rfl found closed known ext
  have taken : (c :: (r ++ ext)).take t.size = c :: r := by simp [full]
  have left : (c :: (r ++ ext)).drop t.size = ext := by simp [full]
  have raw : String.ofList (c :: r) = l.raw := by rw [← text, String.ofList_toList]
  rw [text, cons_append, pieces, if_neg some, found]
  simp only [taken, left, closed, noting, Position.after_past, raw, ← same]

/-- Scanning gives back lexemes that are written one blank apart. -/
theorem pieces_spaced (whole : ∀ l ∈ ls, Lexeme.ofText? l.raw = some l) {n : Nat}
    (enough : (Lexeme.spaced ls).toList.length ≤ n) (front : List Char) :
    pieces n (past front) (Lexeme.spaced ls).toList =
      ⟨Lexeme.placed front ls ++ (ending (past (front ++ (Lexeme.spaced ls).toList))).tokens, [], []⟩ := by
  induction ls generalizing n front with
  | nil => cases n <;> simp [Lexeme.spaced, pieces, ending, Lexeme.placed]
  | cons l ls ih =>
    have first := whole l mem_cons_self
    obtain ⟨c, r, _, text, _⟩ := Lexeme.exists_piece first
    by_cases last : ls = []
    · subst last
      rw [Lexeme.spaced_singleton] at enough ⊢
      obtain ⟨m, rfl⟩ : ∃ m, n = m + 1 := ⟨n - 1, by simp [text] at enough; omega⟩
      rw [← append_nil l.raw.toList, pieces_whole first (by simp)]
      cases m <;> simp [pieces, ending, Lexeme.placed]
    · rw [Lexeme.toList_spaced_cons l last] at enough ⊢
      obtain ⟨m, rfl⟩ : ∃ m, n = m + 2 := ⟨n - 2, by simp [text] at enough; omega⟩
      have rest := ih (fun k member => whole k (mem_cons_of_mem l member)) (n := m)
        (by simp [text] at enough; omega) (front ++ l.raw.toList ++ [' '])
      have scanned : pieces (m + 1) (past (front ++ l.raw.toList)) (' ' :: (Lexeme.spaced ls).toList) =
          pieces m (past (front ++ l.raw.toList ++ [' '])) (Lexeme.spaced ls).toList := by
        rw [pieces, if_neg (by decide)]
        simp only [piece, show isSpace ' ' = true from rfl, if_true, Position.step_past]
      rw [pieces_whole first (by simp), scanned, rest]
      simp [Lexeme.placed]

end Scan

/-! ### What stands between two lexemes -/

namespace Lexeme

/-- Lexemes with a blank after each. -/
def trail (ls : List Lexeme) : List Char := ls.flatMap fun l => l.raw.toList ++ [' ']

theorem toList_spaced_append (front : List Lexeme) {back : List Lexeme} (more : back ≠ []) :
    (spaced (front ++ back)).toList = trail front ++ (spaced back).toList := by
  induction front with
  | nil => rfl
  | cons l front ih =>
    rw [cons_append, toList_spaced_cons l (by simp [more]), ih]
    simp [trail]

theorem exists_spaced_append (front back : List Lexeme) :
    ∃ rest, (spaced (front ++ back)).toList = (spaced front).toList ++ rest := by
  induction front with
  | nil => exact ⟨_, rfl⟩
  | cons l front ih =>
    obtain ⟨rest, same⟩ := ih
    by_cases last : front = []
    · subst last
      by_cases none : back = []
      · exact ⟨[], by simp [none]⟩
      · exact ⟨_, by rw [singleton_append, toList_spaced_cons l none, spaced_singleton]⟩
    · exact ⟨rest, by rw [cons_append, toList_spaced_cons l (by simp [last]), toList_spaced_cons l last, same,
        append_assoc, cons_append]⟩

@[simp] theorem map_placed (front : List Char) (ls : List Lexeme) : (placed front ls).map Token.toLexeme = ls := by
  induction ls generalizing front with
  | nil => rfl
  | cons l ls ih => simp [placed, ih]

theorem length_placed (front : List Char) (ls : List Lexeme) : (placed front ls).length = ls.length := by
  rw [← length_map Token.toLexeme, map_placed]

theorem placed_append (front : List Char) (ls ks : List Lexeme) :
    placed front (ls ++ ks) = placed front ls ++ placed (front ++ trail ls) ks := by
  induction ls generalizing front with
  | nil => simp [placed, trail]
  | cons l ls ih => simp [placed, trail, ih]

theorem headD_placed (front : List Char) (some : ls ≠ []) (t : Token) :
    ((placed front ls).headD t).span.start = past front := by
  cases ls with
  | nil => exact absurd rfl some
  | cons => rfl

theorem getLastD_placed (front : List Char) (some : ls ≠ []) (t : Token) :
    ((placed front ls).getLastD t).span.stop = past (front ++ (spaced ls).toList) := by
  induction ls generalizing front t with
  | nil => exact absurd rfl some
  | cons l ls ih =>
    rw [placed, getLastD_cons]
    by_cases last : ls = []
    · simp [last, placed, spaced_singleton]
    · rw [ih _ last, toList_spaced_cons l last]
      simp

end Lexeme

/-- Whatever tokens stand next to each other, the source has them one blank apart. -/
def Spelled (source : List Char) (ts : List Token) : Prop :=
  ∀ mid, mid <:+: ts → mid ≠ [] → Text.slice source (mid.headD .none).span.start.offset
    (mid.getLastD .none).span.stop.offset = (Lexeme.spaced (mid.map Token.toLexeme)).toList

namespace Spelled

theorem part {source : List Char} {ts us : List Token} (spelled : Spelled source ts) (inside : us <:+: ts) :
    Spelled source us :=
  fun mid among some => spelled mid (among.trans inside) some

theorem placed (ls : List Lexeme) : Spelled (Lexeme.spaced ls).toList (Lexeme.placed [] ls) := by
  rintro mid ⟨front, back, split⟩ some
  have lexemes : ls = front.map Token.toLexeme ++ (mid.map Token.toLexeme ++ back.map Token.toLexeme) := by
    rw [← Lexeme.map_placed [] ls, ← split]
    simp
  have middle : mid.map Token.toLexeme ≠ [] := by simpa using some
  have here : mid = Lexeme.placed (Lexeme.trail (front.map Token.toLexeme)) (mid.map Token.toLexeme) := by
    rw [lexemes, Lexeme.placed_append, Lexeme.placed_append, append_assoc, nil_append] at split
    obtain ⟨_, after⟩ := append_inj split (by simp [Lexeme.length_placed])
    exact (append_inj after (by simp [Lexeme.length_placed])).1
  obtain ⟨rest, follows⟩ := Lexeme.exists_spaced_append (mid.map Token.toLexeme) (back.map Token.toLexeme)
  have source : (Lexeme.spaced ls).toList = Lexeme.trail (front.map Token.toLexeme) ++
      ((Lexeme.spaced (mid.map Token.toLexeme)).toList ++ rest) := by
    rw [← follows, ← Lexeme.toList_spaced_append _ (by simp [some]), ← lexemes]
  rw [here, Lexeme.headD_placed _ middle, Lexeme.getLastD_placed _ middle, Lexeme.map_placed]
  exact Text.slice_holds source

end Spelled
end TableLineage
