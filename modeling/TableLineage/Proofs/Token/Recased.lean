import TableLineage.Proofs.Text.LetterCase
import TableLineage.Proofs.Token.Blank
import TableLineage.Proofs.Token.Lossless

/-! Scanning texts that differ in the case of letters. Nothing but the tag of a dollar-quoted string
is told by the case of a letter, so where only words are spelled in another case the pieces stay where
they are and what they are. -/
namespace TableLineage

open List

/-- The lexeme in small letters. A quoted name stays as it is written. -/
def Lexeme.small (l : Lexeme) : Lexeme :=
  ⟨l.kind, Text.small l.literal, if l.quoted then l.raw else Text.small l.raw, l.quoted⟩

def Token.small (t : Token) : Token := ⟨t.toLexeme.small, t.span⟩

namespace Scan

open Position (past)
open Text (SameLetter SameLetters Caseless)

/-! ### Pieces of texts that differ in case -/

variable {cs ds r tag : List Char} {n : Nat}

section

variable (same : SameLetters cs ds) {q : Char}

include same

theorem startsDigit_same : startsDigit cs = startsDigit ds := by
  cases same with
  | nil => rfl
  | cons first _ => exact first.apply_eq (f := Char.isDigit) (by decide)

theorem head?_same (sign : q.isAlpha = false) : cs.head? = some q ↔ ds.head? = some q := by
  cases same with
  | nil => rfl
  | cons first _ => simpa using first.eq_iff sign

/-- A text that starts with a sign starts with it whatever the case of its letters. -/
theorem exists_of_sign (starts : cs = q :: r) (sign : q.isAlpha = false) : ∃ r', ds = q :: r' ∧ SameLetters r r' := by
  subst starts
  cases same with
  | cons first rest =>
    obtain rfl := (first.eq_iff sign).1 rfl
    exact ⟨_, rfl, rest⟩

theorem ne_of_sign (sign : q.isAlpha = false) (absent : ∀ r, cs = q :: r → False) : ∀ r, ds = q :: r → False := by
  intro r starts
  obtain ⟨r', back, _⟩ := exists_of_sign same.symm starts sign
  exact absent r' back

theorem exponent_same : SameLetters (exponent cs) (exponent ds) := by
  have digits : Caseless Char.isDigit := by decide
  cases same with
  | nil => exact .nil
  | cons first rest =>
    cases rest with
    | nil => exact .nil
    | cons second rest =>
      have mark := first.apply_eq (f := fun e => e = 'e' || e = 'E') (by decide)
      have sign := second.apply_eq (f := fun s => s = '+' || s = '-') (by decide)
      simp only [exponent, mark, sign, second.apply_eq digits, startsDigit_same rest]
      split
      · split
        · exact .cons first (SameLetters.takeWhile (.cons second rest) digits)
        · split
          · exact .cons first (.cons second (SameLetters.takeWhile rest digits))
          · exact .nil
      · exact .nil

theorem fraction_same : SameLetters (fraction cs) (fraction ds) := by
  by_cases dot : cs.head? = some '.'
  · obtain ⟨r, starts⟩ : ∃ r, cs = '.' :: r := by simpa [head?_eq_some_iff] using dot
    obtain ⟨r', starts', rest⟩ := exists_of_sign same starts (by decide)
    subst starts starts'
    simp only [fraction, head?_same rest (q := '.') (by decide)]
    split
    · exact .nil
    · exact .cons rfl (rest.takeWhile (by decide))
  · have dot' : ds.head? ≠ some '.' := mt (head?_same same (by decide)).2 dot
    have none {es : List Char} (dot : es.head? ≠ some '.') : fraction es = [] := by
      unfold fraction
      split
      · exact absurd rfl dot
      · rfl
    rw [none dot, none dot']
    exact .nil

theorem number_same : SameLetters (number cs) (number ds) := by
  have whole := same.takeWhile (p := Char.isDigit) (by decide)
  have rest := same.drop (cs.takeWhile Char.isDigit).length
  have part := fraction_same rest
  have power := exponent_same (rest.drop (fraction (cs.drop (cs.takeWhile Char.isDigit).length)).length)
  simp only [number, ← whole.length_eq, ← part.length_eq]
  exact rel_append (rel_append whole part) power

theorem quoted_same (sign : q.isAlpha = false) :
    SameLetters (quoted q cs).1 (quoted q ds).1 ∧ (quoted q cs).2 = (quoted q ds).2 := by
  have letter : nul.isAlpha = false := by decide
  fun_induction quoted q cs generalizing ds with
  | case1 =>
    cases same
    exact ⟨.nil, rfl⟩
  | case2 =>
    obtain ⟨r', rfl, _⟩ := exists_of_sign same rfl letter
    rw [quoted.eq_def q (nul :: r')]
    exact ⟨.nil, rfl⟩
  | case3 tail inner size shut found notNul ih =>
    obtain ⟨r', rfl, more⟩ := exists_of_sign same rfl sign
    obtain ⟨tail', rfl, rest⟩ := exists_of_sign more rfl sign
    obtain ⟨bodies, sizes⟩ := ih rest
    rw [found] at bodies sizes
    simp only [quoted, notNul, if_true, if_false, ← sizes, and_true]
    exact .cons rfl bodies
  | case4 d r notQuote notNul =>
    obtain ⟨r', rfl, rest⟩ := exists_of_sign same rfl sign
    cases rest with
    | @cons _ d' _ _ second rest =>
      have other : d' ≠ q := mt (second.eq_iff sign).2 notQuote
      simp [quoted, notNul, other]
  | case5 notNul =>
    obtain ⟨r', rfl, rest⟩ := exists_of_sign same rfl sign
    cases rest
    simp [quoted, notNul]
  | case6 c r notNul notQuote inner size shut found ih =>
    cases same with
    | @cons _ c' _ r' first rest =>
      obtain ⟨bodies, sizes⟩ := ih rest
      rw [found] at bodies sizes
      have notNul' : c' ≠ nul := mt (first.eq_iff letter).2 notNul
      have notQuote' : c' ≠ q := mt (first.eq_iff sign).2 notQuote
      rw [quoted.eq_def q (c' :: r')]
      simp only [notNul', notQuote', if_false, ← sizes, and_true]
      exact .cons first bodies

theorem blockComment_same (depth : Nat) : blockComment depth cs = blockComment depth ds := by
  fun_induction blockComment depth cs generalizing ds with
  | case1 cs => cases ds <;> simp [blockComment]
  | case2 depth unclosed =>
    cases same
    rw [blockComment]
    exact unclosed
  | case3 depth r inner shut found ih | case4 depth r inner shut found ih =>
    obtain ⟨r', rfl, more⟩ := exists_of_sign same rfl (by decide)
    obtain ⟨tail, rfl, rest⟩ := exists_of_sign more rfl (by decide)
    simp only [blockComment, ← ih rest, found]
  | case5 depth r =>
    obtain ⟨r', rfl, _⟩ := exists_of_sign same rfl (by decide)
    rw [blockComment, if_pos rfl]
    · intro _ star
      exact absurd star (by decide)
    · intro _ slash
      exact absurd slash (by decide)
  | case6 depth c r notClose notOpen notNul inner shut found ih =>
    cases same with
    | @cons _ c' _ r' first rest =>
      have notNul' : c' ≠ nul := mt (first.eq_iff (by decide)).2 notNul
      rw [blockComment, if_neg notNul', ← ih rest, found]
      · intro t star slash
        exact ne_of_sign rest (by decide) (fun t => notClose t ((first.eq_iff (by decide)).2 star)) t slash
      · intro t slash star
        exact ne_of_sign rest (by decide) (fun t => notOpen t ((first.eq_iff (by decide)).2 slash)) t star

theorem tag?_same : Option.Rel SameLetters (tag? cs) (tag? ds) := by
  by_cases dollar : cs.head? = some '$'
  · obtain ⟨r, starts⟩ : ∃ r, cs = '$' :: r := by simpa [head?_eq_some_iff] using dollar
    obtain ⟨r', starts', rest⟩ := exists_of_sign same starts (by decide)
    subst starts starts'
    have name := rest.takeWhile (p := isTagPart) (by decide)
    have closes := head?_same (rest.drop (r.takeWhile isTagPart).length) (q := '$') (by decide)
    simp only [tag?, ← name.length_eq, closes]
    split
    · exact .some (.cons rfl (rel_append name (.cons rfl .nil)))
    · exact .none
  · have dollar' : ds.head? ≠ some '$' := mt (head?_same same (by decide)).2 dollar
    have none {es : List Char} (dollar : es.head? ≠ some '$') : tag? es = none := by
      unfold tag?
      split
      · exact absurd rfl dollar
      · rfl
    rw [none dollar, none dollar']
    exact .none

theorem symbol_of_same {k : Kind} (found : symbol cs = some (k, n)) : symbol ds = some (k, n) := by
  unfold symbol at found
  split at found <;> cases found
  all_goals obtain ⟨r, rfl, rest⟩ := exists_of_sign same rfl (by decide)
  -- A sign that might go on goes on in neither text.
  case h_17 | h_20 | h_30 | h_35 =>
    rw [symbol]
    all_goals exact ne_of_sign rest (by decide) (by assumption)
  case h_27 double _ =>
    rw [symbol]
    · intro t starts
      obtain ⟨t', starts', _⟩ := exists_of_sign rest.symm starts (by decide)
      exact double t' starts'
    all_goals exact ne_of_sign rest (by decide) (by assumption)
  case h_14 | h_15 | h_16 | h_18 | h_19 | h_21 | h_26 | h_28 | h_29 | h_34 =>
    obtain ⟨t, rfl, _⟩ := exists_of_sign rest rfl (by decide)
    rfl
  case h_22 | h_24 =>
    obtain ⟨t, rfl, more⟩ := exists_of_sign rest rfl (by decide)
    obtain ⟨u, rfl, _⟩ := exists_of_sign more rfl (by decide)
    rfl
  case h_23 | h_25 =>
    obtain ⟨t, rfl, more⟩ := exists_of_sign rest rfl (by decide)
    rw [symbol]
    all_goals exact ne_of_sign more (by decide) (by assumption)
  all_goals rfl

theorem symbol_same : symbol cs = symbol ds := by
  cases found : symbol cs with
  | some sign => exact (symbol_of_same same found).symm
  | none =>
    cases found' : symbol ds with
    | none => rfl
    | some sign => exact found.symm.trans (symbol_of_same same.symm found')

theorem after_same (p : Position) : p.after cs = p.after ds := by
  induction same generalizing p with
  | nil => rfl
  | cons first _ ih =>
    have newline := first.eq_iff (q := '\n') (by decide)
    have size := first.apply_eq (f := Char.utf8Size) (by decide)
    rw [Position.after_cons, Position.after_cons, ih, Position.step, Position.step]
    simp only [newline, size]

end

/-! ### Dollar-quoted strings -/

theorem prefix_of_tag? (found : tag? cs = some tag) : tag <+: cs := by
  unfold tag? at found
  split at found
  · next r =>
    dsimp only at found
    split at found
    · next closes =>
      cases found
      obtain ⟨more, after⟩ := head?_eq_some_iff.1 closes
      have name := prefix_iff_eq_take.1 ( takeWhile_prefix (l := r) isTagPart)
      have parts := take_append_drop (r.takeWhile isTagPart).length r
      rw [← name, after] at parts
      exact ⟨more, by simp [parts]⟩
    · cases found
  · cases found

theorem skipBytes_take {m : Nat} (room : (skipBytes n cs).2.1 ≤ m) :
    skipBytes n (cs.take m) =
      ((skipBytes n cs).1, (skipBytes n cs).2.1, (skipBytes n cs).2.2.take (m - (skipBytes n cs).2.1)) := by
  fun_induction skipBytes n cs generalizing m with
  | case1 cs => cases cs.take m <;> simp [skipBytes]
  | case2 => simp [skipBytes]
  | case3 n c cs fits stray count rest found ih =>
    rw [found] at ih
    obtain ⟨k, rfl⟩ := Nat.exists_eq_add_one_of_ne_zero (Nat.ne_of_gt (Nat.lt_of_lt_of_le (Nat.succ_pos count) room))
    simp [skipBytes, fits, ih (Nat.le_of_succ_le_succ room)]
  | case4 n c cs cut =>
    obtain ⟨k, rfl⟩ := Nat.exists_eq_add_one_of_ne_zero (Nat.ne_of_gt (Nat.lt_of_lt_of_le Nat.one_pos room))
    simp [skipBytes, cut]

theorem beforeMark_take {mark body : List Char} (found : beforeMark mark cs = some body) :
    beforeMark mark (cs.take (body.length + mark.length)) = some body := by
  induction cs generalizing body with
  | nil => simpa using found
  | cons c cs ih =>
    simp only [beforeMark] at found
    split at found
    · next here =>
      cases found
      have taken := prefix_iff_eq_take.1 ( isPrefixOf_iff_prefix.1 here)
      rw [length_nil, Nat.zero_add, ← taken]
      cases mark <;> simp [beforeMark]
    · next absent =>
      obtain ⟨inner, later, rfl⟩ := Option.map_eq_some_iff.1 found
      have still : ¬ mark.isPrefixOf (c :: cs.take (inner.length + mark.length)) := by
        intro here
        apply absent
        rw [ isPrefixOf_iff_prefix] at here ⊢
        exact here.trans (by simp [ take_prefix])
      rw [length_cons, Nat.add_right_comm, take_succ_cons, beforeMark, if_neg still, ih later]
      rfl

/-- A string that is closed is read from no more than its own text. -/
theorem dollarQuoted_take (closed : (dollarQuoted tag cs).fault = none) :
    dollarQuoted tag (cs.take (dollarQuoted tag cs).size) = dollarQuoted tag cs := by
  unfold dollarQuoted at closed ⊢
  generalize skipped : skipBytes tag.length cs = found at closed ⊢
  obtain ⟨stray, count, rest⟩ := found
  dsimp only at closed ⊢
  cases marked : beforeMark tag rest with
  | none => simp [marked] at closed
  | some body =>
    have room : (skipBytes tag.length cs).2.1 ≤ count + (body.length + tag.length) := by
      rw [skipped]
      exact Nat.le_add_right _ _
    simp only [Nat.add_assoc, skipBytes_take room, skipped, Nat.add_sub_cancel_left, beforeMark_take marked]

/-- Strings with the same text are the same, whatever comes after them. -/
theorem dollarQuoted_eq (some : tag ≠ []) (closed : (dollarQuoted tag cs).fault = none)
    (text : cs.take (dollarQuoted tag cs).size = ds.take (dollarQuoted tag cs).size) :
    dollarQuoted tag ds = dollarQuoted tag cs := by
  have alone := dollarQuoted_take closed
  rw [text] at alone
  have more := dollarQuoted_append some (alone ▸ closed) (ds.drop (dollarQuoted tag cs).size)
  rwa [take_append_drop, alone] at more

theorem dollarQuoted_kind (tag cs : List Char) : (dollarQuoted tag cs).kind = .string := by
  unfold dollarQuoted
  dsimp only
  split <;> rfl

theorem length_tag_le (closed : (dollarQuoted tag cs).fault = none) : tag.length ≤ (dollarQuoted tag cs).size := by
  unfold dollarQuoted at closed ⊢
  dsimp only at closed ⊢
  split
  · exact Nat.le_add_left _ _
  · next missing => simp [missing] at closed

/-! ### Tokens -/

/-- Readings of the same token, spelled in another case. -/
structure Reading.Same (r r' : Reading) : Prop where
  kind : r.kind = r'.kind
  literal : SameLetters r.literal r'.literal
  size : r.size = r'.size
  quoted : r.quoted = r'.quoted
  fault : r.fault = r'.fault

theorem Reading.Same.plain {k k' : Kind} {text text' : List Char} (kind : k = k') (same : SameLetters text text') :
    (Reading.plain k text).Same (Reading.plain k' text') :=
  ⟨kind, same, same.length_eq, rfl, rfl⟩

theorem Reading.Same.refl (r : Reading) : r.Same r := ⟨rfl, Text.sameLetters_refl _, rfl, rfl, rfl⟩

theorem Reading.Same.small_eq {r r' : Reading} (same : r.Same r') {text text' : List Char}
    (letters : SameLetters text text') (kept : r.quoted → text = text') (span : Span) :
    Token.small ⟨⟨r.kind, String.ofList r.literal, String.ofList text, r.quoted⟩, span⟩ =
      Token.small ⟨⟨r'.kind, String.ofList r'.literal, String.ofList text', r'.quoted⟩, span⟩ := by
  have literal : Text.small (String.ofList r.literal) = Text.small (String.ofList r'.literal) :=
    Text.small_eq (by simpa using same.literal)
  have raw : Text.small (String.ofList text) = Text.small (String.ofList text') := Text.small_eq (by simpa using letters)
  simp only [Token.small, Lexeme.small, ← same.kind, ← same.quoted, literal, raw]
  split
  · next name => rw [kept name]
  · rfl

/-- A string in dollars that is closed, in front of text in another case. -/
theorem dollarQuoted_same {other : Reading} (found : tag? cs = some tag)
    (tags : Option.Rel SameLetters (some tag) (tag? ds)) (closed : (dollarQuoted tag cs).fault = none)
    (text : cs.take (dollarQuoted tag cs).size = ds.take (dollarQuoted tag cs).size) :
    (dollarQuoted tag cs).Same (match tag? ds with | some tag => dollarQuoted tag ds | none => other) := by
  cases found' : tag? ds with
  | none =>
    rw [found'] at tags
    cases tags
  | some tag' =>
    rw [found'] at tags
    cases tags with
    | some letters =>
      have same : tag = tag' := by
        have front := prefix_iff_eq_take.1 (prefix_of_tag? found)
        have front' := prefix_iff_eq_take.1 (prefix_of_tag? found')
        have fits := Nat.min_eq_left (length_tag_le closed)
        have heads := congrArg (List.take tag.length) text
        rwa [take_take, take_take, fits, ← front, letters.length_eq, ← front'] at heads
      subst same
      dsimp only
      rw [dollarQuoted_eq (tag?_ne_nil found) closed text]
      exact .refl _

/-- A token that is not left open is the same whatever the case of letters; a string in dollars is
if it has the same text. -/
theorem token_same {c d : Char} {r' : List Char} (first : SameLetter c d) (rest : SameLetters r r')
    (closed : (token c r).fault = none)
    (kept : (token c r).kind = .string → (c :: r).take (token c r).size = (d :: r').take (token c r).size) :
    (token c r).Same (token d r') := by
  have whole : SameLetters (c :: r) (d :: r') := .cons first rest
  have single := first.eq_iff (q := '\x27') (by decide)
  have double := first.eq_iff (q := '\x22') (by decide)
  have dollar := first.eq_iff (q := '$') (by decide)
  have dot := first.eq_iff (q := '.') (by decide)
  have digit := first.apply_eq (f := Char.isDigit) (by decide)
  have start := first.apply_eq (f := isNameStart) (by decide)
  have quote {q : Char} (sign : q.isAlpha = false) (kind : Kind) (name : Bool) (fault : ScanFault) :
      Reading.Same ⟨kind, (quoted q r).1, (quoted q r).2.1 + 1, name, if (quoted q r).2.2 then none else some fault⟩
        ⟨kind, (quoted q r').1, (quoted q r').2.1 + 1, name, if (quoted q r').2.2 then none else some fault⟩ := by
    obtain ⟨bodies, sizes⟩ := quoted_same rest sign
    rw [← sizes]
    exact ⟨rfl, bodies, rfl, rfl, rfl⟩
  unfold token at closed kept ⊢
  simp only [single, double, dollar, dot, digit, start, startsDigit_same rest] at closed kept ⊢
  split
  · exact quote (by decide) _ _ _
  next notSingle =>
  rw [if_neg notSingle] at closed kept
  split
  · exact quote (by decide) _ _ _
  next notDouble =>
  rw [if_neg notDouble] at closed kept
  split
  · next sign =>
    rw [if_pos sign] at closed kept
    split
    · exact .plain rfl (.cons rfl (rest.takeWhile (by decide)))
    next notDigit =>
    rw [if_neg notDigit] at closed kept
    have tags := tag?_same whole
    cases found : tag? (c :: r) with
    | none =>
      rw [found] at tags
      generalize tag? (d :: r') = none' at tags
      cases tags
      exact .plain rfl (.cons first .nil)
    | some tag =>
      simp only [found] at closed kept tags ⊢
      exact dollarQuoted_same found tags closed (kept (dollarQuoted_kind tag (c :: r)))
  next notDollar =>
  rw [if_neg notDollar] at closed kept
  split
  · exact .plain rfl (number_same whole)
  split
  · have word := whole.takeWhile (p := isNamePart) (by decide)
    refine .plain (congrArg Kind.ofWord (Text.lowerWord_eq ?_)) word
    simpa using word
  · rw [symbol_same whole]
    split
    · exact .plain rfl (whole.take _)
    · exact .plain rfl (.cons first .nil)

/-- The same piece, spelled in another case. -/
inductive Piece.Same : Piece → Piece → Prop
  | space : Same .space .space
  | comment (style : Comment.Style) (size : Nat) (fault : Option ScanFault) :
      Same (.comment style size fault) (.comment style size fault)
  | token {r r' : Reading} (same : r.Same r') : Same (.token r) (.token r')

theorem piece_same {c d : Char} {r' : List Char} (first : SameLetter c d) (rest : SameLetters r r')
    (token : ∀ t, piece c r = .token t → t.Same (token d r')) : (piece c r).Same (piece d r') := by
  have whole : SameLetters (c :: r) (d :: r') := .cons first rest
  have blank := first.apply_eq (f := isSpace) (by decide)
  unfold piece at token ⊢
  simp only [blank] at token ⊢
  split
  · exact .space
  next notSpace =>
  simp only [notSpace] at token
  split
  · obtain rfl := (first.eq_iff (q := '-') (by decide)).1 rfl
    obtain ⟨t, rfl, _⟩ := exists_of_sign rest rfl (by decide)
    have text := whole.takeWhile (p := fun d => d ≠ '\n' && d ≠ nul) (by decide)
    rw [text.length_eq]
    exact .comment _ _ _
  · obtain rfl := (first.eq_iff (q := '/') (by decide)).1 rfl
    obtain ⟨t, rfl, inner⟩ := exists_of_sign rest rfl (by decide)
    simp only [blockComment_same inner]
    exact .comment _ _ _
  · next notLine notBlock =>
    split
    · obtain rfl := (first.eq_iff (q := '-') (by decide)).2 rfl
      obtain ⟨t, rfl, _⟩ := exists_of_sign rest.symm rfl (by decide)
      exact (notLine _ rfl rfl).elim
    · obtain rfl := (first.eq_iff (q := '/') (by decide)).2 rfl
      obtain ⟨t, rfl, _⟩ := exists_of_sign rest.symm rfl (by decide)
      exact (notBlock _ rfl rfl).elim
    · exact .token (token _ (by simp))

/-! ### Whole texts -/

/-- Where `ds` differs from `cs`, the text that `front` stands before, it differs in the case of a
letter, and in an unquoted name or keyword among the tokens. -/
structure Respelled (front : List Char) (ts : List Token) (cs ds : List Char) : Prop where
  length : cs.length = ds.length
  letters : ∀ i c d, cs[i]? = some c → ds[i]? = some d → c = d ∨ SameLetter c d ∧
    ∃ t ∈ ts, t.isLabel ∧ t.quoted = false ∧ t.span.Covers (past (front ++ cs.take i)).offset

namespace Respelled

variable {front : List Char} {ts : List Token} (spelled : Respelled front ts cs ds)

include spelled

theorem sameLetters : SameLetters cs ds := by
  rw [SameLetters, forall₂_iff_get]
  refine ⟨spelled.length, fun i inside inside' => ?_⟩
  obtain same | ⟨same, _⟩ := spelled.letters i _ _ (getElem?_eq_getElem inside) (getElem?_eq_getElem inside')
  · exact congrArg Char.toLower same
  · exact same

/-- The characters in front of all words are the same. -/
theorem take_eq
    (later : ∀ t ∈ ts, t.isLabel → t.quoted = false → (past (front ++ cs.take n)).offset ≤ t.span.start.offset) :
    cs.take n = ds.take n := by
  refine ext_getElem? fun i => ?_
  rw [getElem?_take, getElem?_take]
  split
  · next before =>
    by_cases inside : i < cs.length
    · have here := getElem?_eq_getElem inside
      have here' := getElem?_eq_getElem (spelled.length ▸ inside)
      obtain same | ⟨_, t, member, label, bare, covers⟩ := spelled.letters i _ _ here here'
      · rw [here, here', same]
      · -- The word would start behind a character that it covers.
        have starts := Nat.le_trans (later t member label bare) covers.1
        obtain ⟨k, rfl⟩ := Nat.exists_eq_add_of_le before
        have some : (cs.drop i).take (k + 1) ≠ [] := by simpa using inside
        have bytes := Text.bytesOf_pos some
        rw [show i.succ + k = i + (k + 1) by omega, take_add, ← append_assoc] at starts
        simp only [past, Text.bytesOf_append, length_append] at starts
        omega
    · rw [getElem?_eq_none (Nat.not_lt.1 inside), getElem?_eq_none (spelled.length ▸ Nat.not_lt.1 inside)]
  · rfl

omit spelled in
/-- A token that is no word has the same text in both. -/
theorem text_eq {t : Token} (spelled : Respelled front (t :: ts) cs ds)
    (later : ∀ u ∈ ts, (past (front ++ cs.take n)).offset ≤ u.span.start.offset) (other : t.isLabel → t.quoted) :
    cs.take n = ds.take n := by
  refine spelled.take_eq fun u member label bare => ?_
  obtain rfl | after := mem_cons.1 member
  · cases bare.symm.trans (other label)
  · exact later u after

theorem drop {ts' : List Token} (fewer : ∀ t ∈ ts, t ∈ ts' ∨ t.span.stop.offset ≤ (past (front ++ cs.take n)).offset) :
    Respelled (front ++ cs.take n) ts' (cs.drop n) (ds.drop n) := by
  refine ⟨by rw [length_drop, length_drop, spelled.length], fun i c d here here' => ?_⟩
  rw [getElem?_drop] at here here'
  refine (spelled.letters (n + i) c d here here').imp_right ?_
  rintro ⟨same, t, member, label, bare, covers⟩
  rw [take_add, ← append_assoc] at covers
  refine ⟨same, t, (fewer t member).resolve_right fun ended => ?_, label, bare, covers⟩
  have := covers.2
  simp only [past, Text.bytesOf_append, length_append] at ended this
  omega

end Respelled

theorem errors_noting {p : Position} {fault : Option ScanFault} {s : Scan} :
    (noting p fault s).errors = [] ↔ fault = none ∧ s.errors = [] := by
  cases fault <;> simp [noting]

/-- A text without faults that is spelled in another case has the same tokens, in small letters. -/
theorem pieces_respelled {front : List Char} (enough : cs.length ≤ n)
    (spelled : Respelled front (pieces n (past front) cs).tokens cs ds) (clean : (pieces n (past front) cs).errors = []) :
    (pieces n (past front) ds).errors = [] ∧
      (pieces n (past front) cs).tokens.map Token.small = (pieces n (past front) ds).tokens.map Token.small := by
  induction n generalizing front cs ds with
  | zero => exact ⟨rfl, rfl⟩
  | succ n ih =>
    have same := spelled.sameLetters
    cases same with
    | nil => exact ⟨rfl, rfl⟩
    | @cons c d r r' first rest =>
      have whole : SameLetters (c :: r) (d :: r') := .cons first rest
      have shorter (size : Nat) (some : 0 < size) : ((c :: r).drop size).length ≤ n := by
        simp only [length_drop, length_cons] at enough ⊢
        omega
      have cut := first.eq_iff (q := nul) (by decide)
      simp only [pieces, cut] at spelled clean ⊢
      split
      · exact ⟨rfl, rfl⟩
      next goesOn =>
      simp only [goesOn, if_false] at spelled clean
      have related : (piece c r).Same (piece d r') := by
        refine piece_same first rest fun t found => ?_
        obtain rfl := token_of_piece found
        simp only [found, noting_tokens, errors_noting, Position.after_past] at spelled clean
        refine token_same first rest clean.1 fun string => ?_
        refine spelled.text_eq (pieces_laid (shorter _ (token_size_pos c r)) _).le_token ?_
        simp [Lexeme.isLabel, string, Kind.isKeyword]
      generalize found : piece c r = one, piece d r' = two at related spelled clean ⊢
      cases related with
      | space =>
        dsimp only at spelled clean ⊢
        have step := after_same (.cons first .nil : SameLetters [c] [d]) (past front)
        rw [Position.after_cons, Position.after_cons, Position.after_nil, Position.after_nil] at step
        rw [← step]
        rw [Position.step_past] at spelled clean ⊢
        exact ih (shorter 1 Nat.one_pos) (spelled.drop (n := 1) fun _ => .inl) clean
      | comment style size fault =>
        have some := comment_size_pos found
        simp only [noting_tokens, errors_noting, ← after_same (whole.take size), Position.after_past] at spelled clean ⊢
        obtain ⟨errors, tokens⟩ := ih (shorter size some) (spelled.drop fun _ => .inl) clean.2
        exact ⟨⟨clean.1, errors⟩, tokens⟩
      | @token t t' alike =>
        obtain rfl := token_of_piece found
        have some := token_size_pos c r
        simp only [noting_tokens, errors_noting, ← alike.size, ← after_same (whole.take _), Position.after_past]
          at spelled clean ⊢
        have laid := pieces_laid (shorter _ some) (front ++ (c :: r).take (token c r).size)
        have after : Respelled (front ++ (c :: r).take (token c r).size) _ _ _ := spelled.drop fun u member =>
          (mem_cons.1 member).symm.imp_right fun here => Nat.le_of_eq (by rw [here])
        obtain ⟨errors, tokens⟩ := ih (shorter _ some) after clean.2
        refine ⟨⟨alike.fault ▸ clean.1, errors⟩, ?_⟩
        rw [map_cons, map_cons, tokens]
        congr 1
        exact alike.small_eq (whole.take _) (fun name => spelled.text_eq laid.le_token fun _ => name) _

end Scan

instance (s : Span) (i : Nat) : Decidable (s.Covers i) := inferInstanceAs (Decidable (_ ∧ _))

/-- Texts of the same length that differ, if anywhere, in the case of ASCII letters that stand in
unquoted names and keywords. -/
structure Recased (s s' : String) : Prop where
  length : s.toList.length = s'.toList.length
  letters : ∀ i < s.toList.length, s.toList[i]? = s'.toList[i]? ∨
    s.toList[i]?.map Char.toLower = s'.toList[i]?.map Char.toLower ∧
      ∃ t ∈ (scan s).tokens, t.isLabel ∧ t.quoted = false ∧ t.span.Covers (Text.bytesOf (s.toList.take i)).length

theorem Recased.respelled {s s' : String} (recased : Recased s s') :
    Scan.Respelled [] (scan s).tokens s.toList s'.toList := by
  refine ⟨recased.length, fun i c d here here' => ?_⟩
  obtain ⟨inside, _⟩ := List.getElem?_eq_some_iff.1 here
  have letter := recased.letters i inside
  rw [here, here'] at letter
  exact letter.imp Option.some.inj fun ⟨same, word⟩ => ⟨Option.some.inj same, word⟩

theorem scan_recased {s s' : String} (recased : Recased s s') (clean : (scan s).errors = []) :
    (scan s').errors = [] ∧ (scan s).tokens.map Token.small = (scan s').tokens.map Token.small := by
  have scanned := Scan.pieces_respelled (Nat.le_refl s.toList.length) recased.respelled clean
  have whole : Scan.pieces s.toList.length (Position.past []) s'.toList = scan s' := by
    rw [recased.length]
    rfl
  rw [whole] at scanned
  exact scanned

end TableLineage
