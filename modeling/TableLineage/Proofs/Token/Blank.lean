import TableLineage.Proofs.Token.Layout

/-! A blank ends whatever token stands in front of it: a token that is complete is the same token
where a blank and more text follow. -/
namespace TableLineage.Scan

open List

/-- The blanks between tokens. -/
def blanks : List Char := [' ', '\t', '\n', '\r', '\x0c']

variable {body cs r : List Char} {p : Char → Bool} {b c : Char}

theorem eq_false_of_blank (blank : isSpace b) (none : blanks.all (!p ·)) : p b = false := by
  have cases : b ∈ blanks := by simpa [isSpace, blanks, or_assoc] using blank
  simpa using all_eq_true.1 none b cases

/-! ### How much a piece takes -/

theorem fraction_length_le (cs : List Char) : (fraction cs).length ≤ cs.length := by
  unfold fraction
  split
  · split
    · exact Nat.zero_le _
    · exact Nat.succ_le_succ (takeWhile_sublist _).length_le
  · exact Nat.zero_le _

theorem exponent_length_le (cs : List Char) : (exponent cs).length ≤ cs.length := by
  unfold exponent
  split
  · next e s r =>
    split
    · split
      · exact Nat.succ_le_succ (takeWhile_sublist _).length_le
      · split
        · exact Nat.succ_le_succ (Nat.succ_le_succ (takeWhile_sublist _).length_le)
        · exact Nat.zero_le _
    · exact Nat.zero_le _
  · exact Nat.zero_le _

theorem number_length_le (cs : List Char) : (number cs).length ≤ cs.length := by
  have whole : (cs.takeWhile Char.isDigit).length ≤ cs.length := (takeWhile_sublist _).length_le
  have part := fraction_length_le (cs.drop (cs.takeWhile Char.isDigit).length)
  have power := exponent_length_le ((cs.drop (cs.takeWhile Char.isDigit).length).drop
    (fraction (cs.drop (cs.takeWhile Char.isDigit).length)).length)
  simp only [length_drop] at part power
  simp only [number, length_append]
  omega

theorem quoted_size_le (q : Char) (cs : List Char) : (quoted q cs).2.1 ≤ cs.length := by
  fun_induction quoted q cs with
  | case1 | case2 => exact Nat.zero_le _
  | case3 tail inner size shut same _ ih =>
    rw [same] at ih
    exact Nat.succ_le_succ (Nat.succ_le_succ ih)
  | case4 | case5 => exact Nat.succ_le_succ (Nat.zero_le _)
  | case6 c r _ _ inner size shut same ih =>
    rw [same] at ih
    exact Nat.succ_le_succ ih

theorem blockComment_size_le (depth : Nat) (cs : List Char) : (blockComment depth cs).1 ≤ cs.length := by
  fun_induction blockComment depth cs with
  | case1 | case2 | case5 => exact Nat.zero_le _
  | case3 depth r size closed same ih | case4 depth r size closed same ih =>
    rw [same] at ih
    exact Nat.succ_le_succ (Nat.succ_le_succ ih)
  | case6 depth c r _ _ _ size closed same ih =>
    rw [same] at ih
    exact Nat.succ_le_succ ih

theorem skipBytes_length (n : Nat) (cs : List Char) :
    (skipBytes n cs).2.1 + (skipBytes n cs).2.2.length = cs.length := by
  fun_induction skipBytes n cs with
  | case1 => simp
  | case2 => rfl
  | case3 n c cs fits stray count rest same ih =>
    rw [same] at ih
    simp only [length_cons] at ih ⊢
    omega
  | case4 => simp [Nat.add_comm]

/-- A mark that is found stands in the text. -/
theorem beforeMark_length_le {mark : List Char} (found : beforeMark mark cs = some body) :
    body.length + mark.length ≤ cs.length := by
  induction cs generalizing body with
  | nil =>
    simp only [beforeMark] at found
    split at found
    · next empty =>
      cases found
      simp [List.isEmpty_iff.1 empty]
    · cases found
  | cons c cs ih =>
    simp only [beforeMark] at found
    split at found
    · next here =>
      cases found
      simpa using ( isPrefixOf_iff_prefix.1 here).length_le
    · obtain ⟨inner, later, rfl⟩ := Option.map_eq_some_iff.1 found
      have := ih later
      simp only [length_cons]
      omega

theorem dollarQuoted_size_le {tag : List Char} (closed : (dollarQuoted tag cs).fault = none) :
    (dollarQuoted tag cs).size ≤ cs.length := by
  have length := skipBytes_length tag.length cs
  unfold dollarQuoted at closed ⊢
  generalize skipBytes tag.length cs = skipped at length closed ⊢
  obtain ⟨stray, count, rest⟩ := skipped
  dsimp only at length closed ⊢
  cases found : beforeMark tag rest with
  | none => simp [found] at closed
  | some body =>
    have := beforeMark_length_le found
    dsimp only
    omega

/-- A token that is not left open takes no more than there is. -/
theorem token_size_le (closed : (token c r).fault = none) : (token c r).size ≤ r.length + 1 := by
  unfold token at closed ⊢
  dsimp only at closed ⊢
  split
  · exact Nat.succ_le_succ (quoted_size_le _ _)
  next notSingle =>
  rw [if_neg notSingle] at closed
  split
  · exact Nat.succ_le_succ (quoted_size_le _ _)
  next notDouble =>
  rw [if_neg notDouble] at closed
  split
  · next dollar =>
    rw [if_pos dollar] at closed
    split
    · exact Nat.succ_le_succ (takeWhile_sublist _).length_le
    next notDigit =>
    rw [if_neg notDigit] at closed
    cases found : tag? (c :: r) with
    | none => exact Nat.succ_le_succ (Nat.zero_le _)
    | some tag =>
      simp only [found] at closed ⊢
      exact dollarQuoted_size_le closed
  split
  · exact number_length_le (c :: r)
  split
  · exact (takeWhile_sublist _).length_le
  · split
    · exact length_take_le' _ _
    · exact Nat.succ_le_succ (Nat.zero_le _)

/-! ### In front of a blank -/

section

variable (blank : isSpace b)

include blank

omit blank in
theorem takeWhile_append_stop (stops : p b = false) (cs ext : List Char) :
    (cs ++ b :: ext).takeWhile p = cs.takeWhile p := by
  induction cs with
  | nil => simp [stops]
  | cons c cs ih =>
    by_cases goes : p c
    · simp [goes, ih]
    · simp [goes]

theorem takeWhile_append_blank (cs ext : List Char) (none : blanks.all (!p ·)) :
    (cs ++ b :: ext).takeWhile p = cs.takeWhile p :=
  takeWhile_append_stop (eq_false_of_blank blank none) cs ext

theorem startsDigit_append_blank (cs ext : List Char) : startsDigit (cs ++ b :: ext) = startsDigit cs := by
  cases cs with
  | nil => exact eq_false_of_blank blank (p := Char.isDigit) (by decide)
  | cons => rfl

theorem ne_of_blank (sign : isSpace c = false) : b ≠ c := by
  rintro rfl
  rw [blank] at sign
  cases sign

theorem head?_append_blank (cs ext : List Char) (sign : isSpace c = false) :
    (cs ++ b :: ext).head? = some c ↔ cs.head? = some c := by
  cases cs with
  | nil => simp [ne_of_blank blank sign]
  | cons => simp

theorem exponent_append_blank (cs ext : List Char) : exponent (cs ++ b :: ext) = exponent cs := by
  have digit := eq_false_of_blank blank (p := Char.isDigit) (by decide)
  have sign := eq_false_of_blank blank (p := fun c => c = '+' || c = '-') (by decide)
  have mark := eq_false_of_blank blank (p := fun c => c = 'e' || c = 'E') (by decide)
  match cs with
  | [] => cases ext <;> simp [exponent, mark]
  | [e] => simp [exponent, digit, sign]
  | e :: s :: r =>
    have digits : (s :: (r ++ b :: ext)).takeWhile Char.isDigit = (s :: r).takeWhile Char.isDigit :=
      takeWhile_append_blank blank (s :: r) ext (by decide)
    simp only [cons_append, exponent, digits, startsDigit_append_blank blank,
      takeWhile_append_blank blank r ext (p := Char.isDigit) (by decide)]

theorem fraction_append_blank (cs ext : List Char) : fraction (cs ++ b :: ext) = fraction cs := by
  cases cs with
  | nil => simp [fraction, ne_of_blank blank (c := '.') rfl]
  | cons c r =>
    by_cases dot : c = '.'
    · subst dot
      simp only [cons_append, fraction, head?_append_blank blank r ext (c := '.') rfl,
        takeWhile_append_blank blank r ext (p := Char.isDigit) (by decide)]
    · simp [fraction, dot]

omit blank in
theorem drop_takeWhile_append (cs ext : List Char) (p : Char → Bool) :
    (cs ++ ext).drop (cs.takeWhile p).length = cs.drop (cs.takeWhile p).length ++ ext :=
  drop_append_of_le_length (takeWhile_sublist p).length_le

theorem number_append_blank (cs ext : List Char) : number (cs ++ b :: ext) = number cs := by
  simp only [number, takeWhile_append_blank blank cs ext (p := Char.isDigit) (by decide), drop_takeWhile_append,
    fraction_append_blank blank, drop_append_of_le_length (fraction_length_le _), exponent_append_blank blank]

theorem tag?_append_blank (cs ext : List Char) : tag? (cs ++ b :: ext) = tag? cs := by
  cases cs with
  | nil => simp [tag?, ne_of_blank blank (c := '$') rfl]
  | cons c r =>
    by_cases dollar : c = '$'
    · subst dollar
      simp only [cons_append, tag?, takeWhile_append_blank blank r ext (p := isTagPart) (by decide),
        drop_takeWhile_append, head?_append_blank blank _ ext (c := '$') rfl]
    · simp [tag?, dollar]

omit blank in
/-- A quoted text that is closed stays closed where it was. -/
theorem quoted_append_blank {q : Char} (other : b ≠ q) {size : Nat} (closed : quoted q cs = (body, size, true))
    (ext : List Char) : quoted q (cs ++ b :: ext) = (body, size, true) := by
  fun_induction quoted q cs generalizing body size with
  | case1 => cases closed
  | case2 => cases closed
  | case3 tail inner size shut same notNul ih =>
    simp only [Prod.mk.injEq] at closed
    obtain ⟨rfl, rfl, rfl⟩ := closed
    simp [quoted, notNul, ih same]
  | case4 d r notNul notQuote =>
    simp only [Prod.mk.injEq] at closed
    obtain ⟨rfl, rfl, _⟩ := closed
    simp [quoted, notNul, notQuote]
  | case5 notNul =>
    simp only [Prod.mk.injEq] at closed
    obtain ⟨rfl, rfl, _⟩ := closed
    simp [quoted, notNul, other]
  | case6 c r notNul notQuote inner size shut same ih =>
    simp only [Prod.mk.injEq] at closed
    obtain ⟨rfl, rfl, rfl⟩ := closed
    rw [cons_append, quoted.eq_def]
    simp [notNul, notQuote, ih same]

end

theorem skipBytes_append {n : Nat} (some : (skipBytes n cs).2.2 ≠ []) (ext : List Char) :
    skipBytes n (cs ++ ext) = ((skipBytes n cs).1, (skipBytes n cs).2.1, (skipBytes n cs).2.2 ++ ext) := by
  fun_induction skipBytes n cs with
  | case1 cs => cases cs <;> simp [skipBytes]
  | case2 => exact absurd rfl some
  | case3 n c cs fits stray count rest same ih =>
    rw [same] at ih
    simp [skipBytes, fits, ih some]
  | case4 n c cs cut => simp [skipBytes, cut]

/-- A mark that is found stays the first one. -/
theorem beforeMark_append {mark : List Char} (nonempty : mark ≠ []) (found : beforeMark mark cs = some body)
    (ext : List Char) : beforeMark mark (cs ++ ext) = some body := by
  induction cs generalizing body with
  | nil => simp [beforeMark, nonempty] at found
  | cons c cs ih =>
    have room := beforeMark_length_le found
    simp only [beforeMark] at found
    rw [cons_append, beforeMark]
    split at found
    · next here =>
      obtain ⟨after, same⟩ := isPrefixOf_iff_prefix.1 here
      have still : mark.isPrefixOf (c :: (cs ++ ext)) := by
        rw [← cons_append, ← same, append_assoc]
        exact isPrefixOf_iff_prefix.2 (prefix_append _ _)
      rw [if_pos still]
      exact found
    · next absent =>
      obtain ⟨inner, earlier, rfl⟩ := Option.map_eq_some_iff.1 found
      have still : ¬ mark.isPrefixOf (c :: (cs ++ ext)) := by
        intro here
        apply absent
        rw [ isPrefixOf_iff_prefix, ← cons_append] at here
        rw [ isPrefixOf_iff_prefix]
        exact prefix_of_prefix_length_le here (prefix_append _ _) (by omega)
      rw [if_neg still, ih earlier]
      rfl

theorem dollarQuoted_append {tag : List Char} (nonempty : tag ≠ []) (closed : (dollarQuoted tag cs).fault = none)
    (ext : List Char) : dollarQuoted tag (cs ++ ext) = dollarQuoted tag cs := by
  unfold dollarQuoted at closed ⊢
  have append (more : (skipBytes tag.length cs).2.2 ≠ []) := skipBytes_append more ext
  generalize skipBytes tag.length cs = skipped at append closed ⊢
  obtain ⟨stray, count, rest⟩ := skipped
  dsimp only at append closed ⊢
  cases found : beforeMark tag rest with
  | none => simp [found] at closed
  | some body =>
    have more : rest ≠ [] := by
      rintro rfl
      simp [beforeMark, nonempty] at found
    rw [append more]
    simp only [beforeMark_append nonempty found ext]

/-- A block comment that is closed stays closed where it was. -/
theorem blockComment_append {depth size : Nat} (closed : blockComment depth cs = (size, true)) (ext : List Char) :
    blockComment depth (cs ++ ext) = (size, true) := by
  fun_induction blockComment depth cs generalizing size with
  | case1 cs => cases cs <;> simpa [blockComment] using closed
  | case2 => cases closed
  | case3 depth r inner shut same ih | case4 depth r inner shut same ih =>
    simp only [Prod.mk.injEq] at closed
    obtain ⟨rfl, rfl⟩ := closed
    simp [blockComment, ih same]
  | case5 => cases closed
  | case6 depth c r notClose notOpen notNul inner shut same ih =>
    simp only [Prod.mk.injEq] at closed
    obtain ⟨rfl, rfl⟩ := closed
    cases r with
    | nil => simp [blockComment] at same
    | cons d r =>
      have rest := ih same
      rw [cons_append] at rest
      rw [cons_append, cons_append, blockComment, if_neg notNul, rest]
      · intro r' c' same'
        cases same'
        exact notClose r c' rfl
      · intro r' c' same'
        cases same'
        exact notOpen r c' rfl

section

variable (blank : isSpace b)

include blank

theorem append_blank_ne {x : Char} (sign : isSpace x = false) (absent : ∀ t, cs = x :: t → False) (ext : List Char) :
    ∀ t, cs ++ b :: ext = x :: t → False := by
  intro t same
  cases cs with
  | nil => exact ne_of_blank blank sign (List.cons.inj same).1
  | cons c cs =>
    cases same
    exact absent cs rfl

theorem symbol_append_blank {k : Kind} {n : Nat} (found : symbol cs = some (k, n)) (ext : List Char) :
    n ≤ cs.length ∧ symbol (cs ++ b :: ext) = some (k, n) := by
  unfold symbol at found
  split at found <;> cases found
  all_goals refine ⟨by simp only [length_cons]; omega, ?_⟩
  -- A sign that might go on does not go on with a blank.
  case h_17 | h_20 | h_23 | h_25 | h_30 | h_35 =>
    simp only [cons_append]
    rw [symbol]
    all_goals exact append_blank_ne blank rfl (by assumption) ext
  case h_27 double _ =>
    simp only [cons_append]
    rw [symbol]
    · exact fun t => append_blank_ne blank rfl double ext ('/' :: t)
    all_goals exact append_blank_ne blank rfl (by assumption) ext
  all_goals rfl

/-- A token that is known and not left open is the same in front of a blank. -/
theorem token_append_blank (closed : (token c r).fault = none) (known : (token c r).kind ≠ .illegal) (ext : List Char) :
    token c (r ++ b :: ext) = token c r := by
  have quote {q : Char} {body : List Char} {size : Nat} {shut : Bool} {fault : ScanFault} (sign : isSpace q = false)
      (same : quoted q r = (body, size, shut)) (closed : (if shut then none else some fault) = none) :
      quoted q (r ++ b :: ext) = quoted q r := by
    obtain rfl : shut = true := by simpa using closed
    rw [quoted_append_blank (ne_of_blank blank sign) same, same]
  unfold token at closed known ⊢
  dsimp only at closed known ⊢
  split
  · next single =>
    rw [if_pos single] at closed
    rw [quote rfl rfl closed]
  next notSingle =>
  rw [if_neg notSingle] at closed known
  split
  · next double =>
    rw [if_pos double] at closed
    rw [quote rfl rfl closed]
  next notDouble =>
  rw [if_neg notDouble] at closed known
  split
  · next dollar =>
    rw [if_pos dollar] at closed
    rw [startsDigit_append_blank blank, takeWhile_append_blank blank r ext (by decide), ← cons_append,
      tag?_append_blank blank]
    split
    · rfl
    next notDigit =>
    rw [if_neg notDigit] at closed
    cases found : tag? (c :: r) with
    | none => rfl
    | some tag =>
      simp only [found] at closed ⊢
      exact dollarQuoted_append (tag?_ne_nil found) closed _
  next notDollar =>
  rw [if_neg notDollar] at closed known
  rw [startsDigit_append_blank blank, ← cons_append, number_append_blank blank]
  split
  · rfl
  next notNumber =>
  rw [if_neg notNumber] at closed known
  rw [takeWhile_append_blank blank (c :: r) ext (by decide)]
  split
  · rfl
  next notName =>
  rw [if_neg notName] at closed known
  cases found : symbol (c :: r) with
  | none => simp [found, Reading.plain] at known
  | some sign =>
    obtain ⟨k, n⟩ := sign
    obtain ⟨fits, still⟩ := symbol_append_blank blank found ext
    simp only [still, take_append_of_le_length fits]

theorem piece_append_blank {t : Reading} (found : piece c r = .token t) (closed : t.fault = none)
    (known : t.kind ≠ .illegal) (ext : List Char) : piece c (r ++ b :: ext) = .token t := by
  obtain rfl := token_of_piece found
  have same := token_append_blank blank closed known ext
  unfold piece at found ⊢
  split at found
  · cases found
  · next notSpace =>
    rw [if_neg notSpace]
    split at found
    · cases found
    · cases found
    · next notLine notBlock =>
      split
      · next starts => exact (append_blank_ne blank rfl (fun t => notLine t rfl) ext _ starts).elim
      · next starts => exact (append_blank_ne blank rfl (fun t => notBlock t rfl) ext _ starts).elim
      · rw [same]

end
end TableLineage.Scan
