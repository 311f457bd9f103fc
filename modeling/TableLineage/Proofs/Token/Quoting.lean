import TableLineage.Proofs.Token.Spaced

/-! Quoted texts say what stands between their quotes. With single or double quotes every quote of
the text is written twice; between dollars the text stands as it is, up to the first closing tag. -/
namespace TableLineage

open List
open Position (past)

/-- The scan of a text that is one token as a whole. -/
def Scan.lone (l : Lexeme) : Scan :=
  ⟨⟨l, ⟨past [], past l.raw.toList⟩⟩ :: (ending (past l.raw.toList)).tokens, [], []⟩

variable {body cs : List Char} {c : Char}

namespace Scan

theorem scan_eq_lone {l : Lexeme} (whole : Lexeme.ofText? l.raw = some l) : scan l.raw = lone l := by
  have single : ∀ k ∈ [l], Lexeme.ofText? k.raw = some k := by simpa using whole
  have scanned := pieces_spaced single (Nat.le_refl _) []
  rw [Lexeme.spaced_singleton] at scanned
  exact scanned

/-! ### Single and double quotes -/

/-- The text with every `q` written twice. -/
def doubled (q : Char) (cs : List Char) : List Char := cs.flatMap fun c => if c = q then [q, q] else [c]

@[simp] theorem doubled_nil (q : Char) : doubled q [] = [] := rfl

@[simp] theorem doubled_cons_self (q : Char) (cs : List Char) : doubled q (q :: cs) = q :: q :: doubled q cs := by
  simp [doubled]

variable {q : Char}

theorem doubled_cons_of_ne (other : c ≠ q) (cs : List Char) : doubled q (c :: cs) = c :: doubled q cs := by
  simp [doubled, other]

/-- A text with its quotes doubled is read up to the quote behind it. -/
theorem quoted_doubled (sign : q ≠ nul) {rest : List Char} (clear : nul ∉ cs) (stops : rest.head? ≠ some q) :
    quoted q (doubled q cs ++ q :: rest) = (cs, (doubled q cs).length + 1, true) := by
  induction cs with
  | nil =>
    cases rest with
    | nil => simp [quoted, sign]
    | cons d rest =>
      have other : d ≠ q := by simpa using stops
      simp [quoted, sign, other]
  | cons c cs ih =>
    obtain ⟨first, clear⟩ : nul ≠ c ∧ nul ∉ cs := by simpa using clear
    by_cases same : c = q
    · subst same
      rw [doubled_cons_self, cons_append, cons_append, quoted.eq_def]
      simp [sign, ih clear]
    · rw [doubled_cons_of_ne same, cons_append, quoted.eq_def]
      simp [first.symm, same, ih clear]

/-- What is read of a quoted text that is closed is the text with its quotes doubled, and a quote. -/
theorem take_of_quoted {size : Nat} (closed : quoted q cs = (body, size, true)) :
    cs.take size = doubled q body ++ [q] := by
  fun_induction quoted q cs generalizing body size with
  | case1 => cases closed
  | case2 => cases closed
  | case3 tail inner size shut same notNul ih =>
    simp only [Prod.mk.injEq] at closed
    obtain ⟨rfl, rfl, rfl⟩ := closed
    simp [ih same]
  | case4 | case5 =>
    simp only [Prod.mk.injEq] at closed
    obtain ⟨rfl, rfl, _⟩ := closed
    simp
  | case6 c r _ notQuote inner size shut same ih =>
    simp only [Prod.mk.injEq] at closed
    obtain ⟨rfl, rfl, rfl⟩ := closed
    rw [doubled_cons_of_ne notQuote, take_succ_cons, ih same, cons_append]

end Scan

/-- What is written in quotes: strings in single ones, names in double ones. -/
inductive Quote where
  | string
  | name
  deriving DecidableEq, Repr

namespace Quote

def mark : Quote → Char
  | .string => '\x27'
  | .name => '\x22'

def kind : Quote → Kind
  | .string => .string
  | .name => .ident

/-- Names keep that they were quoted. -/
def flag : Quote → Bool
  | .string => false
  | .name => true

/-- The text in quotes. -/
def write (q : Quote) (s : String) : String :=
  String.ofList (q.mark :: (Scan.doubled q.mark s.toList ++ [q.mark]))

/-- The token was written in quotes. -/
def Opens : Quote → Token → Prop
  | .string, t => t.kind = .string ∧ t.raw.toList.head? = some '\x27'
  | .name, t => t.kind = .ident ∧ t.quoted = true

/-- How a token reads that starts with a quote. -/
theorem token_mark (q : Quote) (r : List Char) : Scan.token q.mark r =
    ⟨q.kind, (Scan.quoted q.mark r).1, (Scan.quoted q.mark r).2.1 + 1, q.flag,
      if (Scan.quoted q.mark r).2.2 then none
      else some (if q.flag then .openName else .openString)⟩ := by
  cases q <;> rfl

theorem piece_mark (q : Quote) (r : List Char) : Scan.piece q.mark r = .token (Scan.token q.mark r) := by
  cases q <;> rfl

theorem mark_ne_nul (q : Quote) : q.mark ≠ Scan.nul := by
  cases q <;> decide

theorem ofText?_write (q : Quote) {s : String} (clear : Scan.nul ∉ s.toList) :
    Lexeme.ofText? (q.write s) = some ⟨q.kind, s, q.write s, q.flag⟩ := by
  have read : Scan.quoted q.mark (Scan.doubled q.mark s.toList ++ [q.mark]) = _ :=
    Scan.quoted_doubled q.mark_ne_nul clear (by simp)
  have known : q.kind ≠ .illegal := by cases q <;> decide
  have text : (q.write s).toList = q.mark :: (Scan.doubled q.mark s.toList ++ [q.mark]) := String.toList_ofList
  unfold Lexeme.ofText?
  rw [text]
  simp only [piece_mark, token_mark, read]
  simp [q.mark_ne_nul, known]

end Quote

namespace Scan

/-! ### Tokens of a scan -/

theorem errors_subset_noting (p : Position) (fault : Option ScanFault) (s : Scan) :
    s.errors ⊆ (noting p fault s).errors := by
  cases fault with
  | none => exact List.Subset.refl _
  | some => exact subset_cons_self _ _

/-- Every token but the end was read from some place of the text, and what was wrong with it is among
the errors. -/
theorem exists_token_of_mem {n : Nat} {p : Position} {t : Token} (member : t ∈ (pieces n p cs).tokens) :
    t.kind = .eof ∨ ∃ c r, t.toLexeme = ⟨(token c r).kind, String.ofList (token c r).literal,
        String.ofList ((c :: r).take (token c r).size), (token c r).quoted⟩ ∧
      ∀ fault ∈ (token c r).fault, ⟨fault, t.span.start⟩ ∈ (pieces n p cs).errors := by
  fun_induction pieces n p cs with
  | case1 | case2 | case3 =>
    obtain rfl := mem_singleton.1 member
    exact .inl rfl
  | case4 n p c r _ found ih => exact ih member
  | case5 n p c r _ style size fault found text stop rest ih =>
    obtain eof | ⟨d, s, same, faults⟩ := ih (by simpa using member)
    · exact .inl eof
    · exact .inr ⟨d, s, same, fun f wrong => errors_subset_noting p fault _ (faults f wrong)⟩
  | case6 n p c r _ reading found text stop rest tok ih =>
    obtain rfl := token_of_piece found
    obtain rfl | later := mem_cons.1 (show t ∈ tok :: rest.tokens by simpa using member)
    · refine .inr ⟨c, r, rfl, fun fault wrong => ?_⟩
      rw [Option.mem_def.1 wrong]
      exact mem_cons_self
    · obtain eof | ⟨d, s, same, faults⟩ := ih later
      · exact .inl eof
      · exact .inr ⟨d, s, same, fun f wrong => errors_subset_noting p _ _ (faults f wrong)⟩

theorem dollarQuoted_quoted (tag cs : List Char) : (dollarQuoted tag cs).quoted = false := by
  unfold dollarQuoted
  dsimp only
  split <;> rfl

/-- Only names in double quotes keep that they were quoted. -/
theorem eq_of_token_quoted {r : List Char} (quoted : (token c r).quoted = true) : c = '\x22' := by
  unfold token at quoted
  dsimp only at quoted
  split at quoted
  · cases quoted
  split at quoted
  · assumption
  split at quoted
  · split at quoted
    · cases quoted
    · split at quoted
      · rw [dollarQuoted_quoted] at quoted
        cases quoted
      · cases quoted
  split at quoted
  · cases quoted
  split at quoted
  · cases quoted
  · split at quoted <;> cases quoted

theorem head?_take_token (c : Char) (r : List Char) : ((c :: r).take (token c r).size).head? = some c := by
  rw [head?_take, if_neg (Nat.ne_of_gt (token_size_pos c r))]
  rfl

end Scan

/-- A token that was written in quotes and read without an error says what stands between its quotes,
each quote there being written twice. -/
theorem Quote.Opens.raw_eq {q : Quote} {text : String} {t : Token} (opens : q.Opens t)
    (member : t ∈ (scan text).tokens) (clean : ∀ e ∈ (scan text).errors, e.pos ≠ t.span.start) :
    t.raw = q.write t.literal := by
  obtain eof | ⟨c, r, same, faults⟩ := Scan.exists_token_of_mem member
  · cases q <;> cases opens.1.symm.trans eof
  have raw : t.raw = String.ofList ((c :: r).take (Scan.token c r).size) := congrArg Lexeme.raw same
  have literal : t.literal = String.ofList (Scan.token c r).literal := congrArg Lexeme.literal same
  have first : c = q.mark := by
    cases q with
    | string =>
      have head := opens.2
      rw [raw, String.toList_ofList, Scan.head?_take_token] at head
      exact Option.some.inj head
    | name =>
      have flag : t.quoted = (Scan.token c r).quoted := congrArg Lexeme.quoted same
      exact Scan.eq_of_token_quoted (flag ▸ opens.2)
  subst first
  rw [q.token_mark] at raw literal faults
  have closed : (Scan.quoted q.mark r).2.2 = true := by
    cases shut : (Scan.quoted q.mark r).2.2 with
    | true => rfl
    | false =>
      refine absurd rfl (clean _ (faults (if q.flag then .openName else .openString) ?_))
      simp [shut]
  have read : Scan.quoted q.mark r = ((Scan.quoted q.mark r).1, (Scan.quoted q.mark r).2.1, true) := by rw [← closed]
  have inside := Scan.take_of_quoted read
  rw [raw, literal, Quote.write, String.toList_ofList, take_succ_cons, inside]

/-- A text without NUL in quotes, its quotes doubled, is one token that says the text; and whatever
token of whatever text was written in quotes and read without an error is such a text. -/
theorem quoted_round_trip :
    (∀ (q : Quote) (s : String), Scan.nul ∉ s.toList →
      scan (q.write s) = Scan.lone ⟨q.kind, s, q.write s, q.flag⟩) ∧
    ∀ (q : Quote) (text : String), ∀ t ∈ (scan text).tokens, q.Opens t →
      (∀ e ∈ (scan text).errors, e.pos ≠ t.span.start) → t.raw = q.write t.literal := by
  constructor
  · intro q s clear
    exact Scan.scan_eq_lone (l := ⟨q.kind, s, q.write s, q.flag⟩) (q.ofText?_write clear)
  · intro q text t member opens clean
    exact opens.raw_eq member clean

/-- Quotes at both ends of a text and next to each other; and a quoted name in a text that breaks off
later. -/
theorem quoted_round_trip_names :
    scan (Quote.name.write "\"a'\"\"\n") = Scan.lone ⟨.ident, "\"a'\"\"\n", "\"\"\"a'\"\"\"\"\n\"", true⟩ ∧
    ∃ t ∈ (scan "( \"a\"\"b\" 'c").tokens, Quote.name.Opens t ∧
      (∀ e ∈ (scan "( \"a\"\"b\" 'c").errors, e.pos ≠ t.span.start) ∧
      t.literal = "a\"b" ∧ t.raw = Quote.name.write "a\"b" := by
  refine ⟨quoted_round_trip.1 .name "\"a'\"\"\n" (by decide),
    ⟨⟨.ident, "a\"b", "\"a\"\"b\"", true⟩, ⟨⟨1, 3, 2⟩, ⟨1, 9, 8⟩⟩⟩, ?_⟩
  have member : (⟨⟨.ident, "a\"b", "\"a\"\"b\"", true⟩, ⟨⟨1, 3, 2⟩, ⟨1, 9, 8⟩⟩⟩ : Token) ∈
      (scan "( \"a\"\"b\" 'c").tokens := by decide +kernel
  have clean : ∀ e ∈ (scan "( \"a\"\"b\" 'c").errors, e.pos ≠ ⟨1, 3, 2⟩ := by decide +kernel
  exact ⟨member, ⟨rfl, rfl⟩, clean, rfl, quoted_round_trip.2 .name _ _ member ⟨rfl, rfl⟩ clean⟩

/-! ### Dollar quotes -/

/-- The tag between dollars. -/
def Dollars.mark (tag : String) : List Char := '$' :: (tag.toList ++ ['$'])

/-- The text between two tags. -/
def Dollars.write (tag body : String) : String :=
  String.ofList (Dollars.mark tag ++ (body.toList ++ Dollars.mark tag))

/-- What may stand between dollars: a word that is no number, or nothing. -/
def Dollars.IsTag (tag : String) : Prop := tag.toList.all Scan.isTagPart = true ∧ Scan.startsDigit tag.toList = false

/-- The first `mark` of the text with `mark` behind it is the one behind it. -/
def Dollars.EndsFirst (mark body : List Char) : Prop :=
  ∀ front back, body ++ mark = front ++ (mark ++ back) → body.length ≤ front.length

instance (tag : String) : Decidable (Dollars.IsTag tag) := inferInstanceAs (Decidable (_ ∧ _))

theorem Dollars.mark_ascii_iff {tag : String} :
    (∀ c ∈ mark tag, c.utf8Size = 1) ↔ ∀ c ∈ tag.toList, c.toNat < 0x80 := by
  have single (c : Char) : c.utf8Size = 1 ↔ c.toNat < 0x80 := by
    rw [Char.utf8Size_eq_one_iff, UInt32.le_iff_toNat_le]
    exact Nat.lt_succ_iff.symm
  simp [mark, single, or_imp, forall_and]

namespace Scan

/-- Looking for the mark finds the one behind the text just when there is none before. -/
theorem beforeMark_eq_some_iff {mark : List Char} :
    beforeMark mark (body ++ mark) = some body ↔ Dollars.EndsFirst mark body := by
  induction body with
  | nil =>
    refine iff_of_true ?_ fun _ _ _ => Nat.zero_le _
    cases mark <;> simp [beforeMark]
  | cons c body ih =>
    rw [cons_append, beforeMark]
    constructor
    · intro found
      split at found
      · cases found
      · next inside =>
        have later : beforeMark mark (body ++ mark) = some body := by simpa using found
        intro front back same
        cases front with
        | nil => exact absurd ( isPrefixOf_iff_prefix.2 ⟨back, same.symm⟩) inside
        | cons d front => exact Nat.succ_le_succ (ih.1 later front back (List.cons.inj same).2)
    · intro ends
      have inside : ¬ mark.isPrefixOf (c :: (body ++ mark)) = true := by
        intro early
        obtain ⟨back, same⟩ := isPrefixOf_iff_prefix.1 early
        exact absurd (ends [] back same.symm) (by simp)
      have later : Dollars.EndsFirst mark body := fun front back same =>
        Nat.le_of_succ_le_succ (ends (c :: front) back (congrArg (c :: ·) same))
      rw [if_neg inside, ih.2 later]
      rfl

instance (mark body : List Char) : Decidable (Dollars.EndsFirst mark body) :=
  decidable_of_iff _ beforeMark_eq_some_iff

theorem skipBytes_of_ascii {front : List Char} (ascii : ∀ c ∈ front, c.utf8Size = 1) (rest : List Char) :
    skipBytes front.length (front ++ rest) = (0, front.length, rest) := by
  induction front with
  | nil => cases rest <;> rfl
  | cons c front ih =>
    have single := ascii c mem_cons_self
    have later := ih fun d member => ascii d (mem_cons_of_mem c member)
    rw [length_cons, cons_append, skipBytes, if_pos (by omega), single, Nat.add_sub_cancel, later]

/-- The characters that were entered hold the bytes that were passed over and the stray ones. -/
theorem bytes_of_skipBytes {n : Nat} (enough : n ≤ (Text.bytesOf cs).length) :
    (Text.bytesOf (cs.take (skipBytes n cs).2.1)).length = n + (skipBytes n cs).1 := by
  fun_induction skipBytes n cs with
  | case1 => rfl
  | case2 n some => exact absurd enough (by simp [Text.bytesOf]; omega)
  | case3 n c cs fits stray count rest same ih =>
    rw [Text.length_bytesOf_cons] at enough
    have inner := ih (by omega)
    rw [same] at inner
    simp only at inner ⊢
    rw [take_succ_cons, Text.length_bytesOf_cons, inner]
    omega
  | case4 n c cs splits =>
    simp only [take_succ_cons, take_zero, Text.length_bytesOf_cons]
    simp [Text.bytesOf]
    omega

theorem length_le_bytes (cs : List Char) : cs.length ≤ (Text.bytesOf cs).length := by
  induction cs with
  | nil => exact Nat.le_refl 0
  | cons c cs ih =>
    have := c.utf8Size_pos
    rw [Text.length_bytesOf_cons, length_cons]
    omega

theorem ascii_of_bytes (single : (Text.bytesOf cs).length = cs.length) : ∀ c ∈ cs, c.utf8Size = 1 := by
  induction cs with
  | nil => simp
  | cons c cs ih =>
    have least := c.utf8Size_pos
    have rest := length_le_bytes cs
    rw [Text.length_bytesOf_cons, length_cons] at single
    intro d member
    obtain rfl | later := mem_cons.1 member
    · omega
    · exact ih (by omega) d later

theorem piece_dollar (r : List Char) : piece '$' r = .token (token '$' r) := rfl

/-- How a token reads that starts with a tag between dollars. -/
theorem token_dollars {tag : String} (word : Dollars.IsTag tag) (rest : List Char) :
    token '$' (tag.toList ++ '$' :: rest) = dollarQuoted (Dollars.mark tag) (Dollars.mark tag ++ rest) := by
  obtain ⟨letters, notNumber⟩ := word
  have stops : (tag.toList ++ '$' :: rest).takeWhile isTagPart = tag.toList := by
    rw [takeWhile_append_of_pos (by simpa using letters), takeWhile_cons_of_neg (by decide), append_nil]
  have notParam : startsDigit (tag.toList ++ '$' :: rest) = false := by
    cases same : tag.toList with
    | nil => rfl
    | cons => rw [same] at notNumber; exact notNumber
  have found : tag? ('$' :: (tag.toList ++ '$' :: rest)) = some (Dollars.mark tag) := by
    simp [tag?, stops, Dollars.mark]
  unfold token
  simp only [reduceCtorEq, notParam, found]
  simp [Dollars.mark]

/-- A text between two tags of single bytes. -/
theorem dollarQuoted_of_ascii {mark : List Char} (ascii : ∀ c ∈ mark, c.utf8Size = 1)
    (ends : Dollars.EndsFirst mark body) : dollarQuoted mark (mark ++ (body ++ mark)) =
      ⟨.string, body, mark.length + body.length + mark.length, false, none⟩ := by
  simp only [dollarQuoted, skipBytes_of_ascii ascii, beforeMark_eq_some_iff.2 ends]
  rfl

/-- A text between two tags that is read as itself has tags of single bytes: as many bytes were passed
over as characters were entered. -/
theorem ascii_of_dollarQuoted {mark : List Char} (closed : (dollarQuoted mark (mark ++ (body ++ mark))).fault = none)
    (meant : (dollarQuoted mark (mark ++ (body ++ mark))).literal = body)
    (whole : (dollarQuoted mark (mark ++ (body ++ mark))).size = (mark ++ (body ++ mark)).length) :
    ∀ c ∈ mark, c.utf8Size = 1 := by
  have passed : mark.length ≤ (Text.bytesOf (mark ++ (body ++ mark))).length := by
    have := length_le_bytes (mark ++ (body ++ mark))
    rw [length_append] at this
    omega
  have entered := bytes_of_skipBytes passed
  have least := length_le_bytes ((mark ++ (body ++ mark)).take (skipBytes mark.length (mark ++ (body ++ mark))).2.1)
  unfold dollarQuoted at closed meant whole
  generalize skipBytes mark.length (mark ++ (body ++ mark)) = skipped at closed meant whole entered least
  obtain ⟨stray, count, rest⟩ := skipped
  dsimp only at closed meant whole entered least
  cases found : beforeMark mark rest with
  | none =>
    rw [found] at closed
    cases closed
  | some inside =>
    rw [found] at meant whole
    dsimp only at meant whole
    have said := congrArg List.length meant
    simp only [length_append, length_replicate] at said whole
    have all : count = mark.length + stray := by omega
    have covered : ((mark ++ (body ++ mark)).take count).length = count := by
      rw [length_take, length_append, length_append]
      omega
    have bytes : (Text.bytesOf ((mark ++ (body ++ mark)).take count)).length =
        ((mark ++ (body ++ mark)).take count).length := by omega
    have single := ascii_of_bytes bytes
    intro c member
    refine single c ?_
    rw [take_append]
    exact mem_append_left _ (by rwa [take_of_length_le (by omega)])

/-- A text that is one token is read by that token to its end, and without an error. -/
theorem token_of_scan_eq_lone {r : List Char} {l : Lexeme} (text : l.raw.toList = c :: r) (notNul : c ≠ nul)
    (found : piece c r = .token (token c r)) (single : scan l.raw = lone l) :
    String.ofList (token c r).literal = l.literal ∧ (token c r).size = r.length + 1 ∧ (token c r).fault = none := by
  have scanned : scan l.raw = pieces (r.length + 1) .start (c :: r) := by
    unfold scan Scan.ofText
    rw [text]
    rfl
  rw [single, pieces, if_neg notNul, found] at scanned
  dsimp only at scanned
  have closed : (token c r).fault = none := by
    cases fault : (token c r).fault with
    | none => rfl
    | some =>
      rw [fault] at scanned
      exact absurd (congrArg Scan.errors scanned) (by simp [lone, noting])
  rw [closed] at scanned
  have first := congrArg (fun s => s.tokens.head?.map (·.toLexeme)) scanned
  simp only [lone, noting, head?_cons, Option.map_some, Option.some.injEq] at first
  have whole : c :: r = (c :: r).take (token c r).size :=
    calc c :: r = l.raw.toList := text.symm
      _ = (String.ofList ((c :: r).take (token c r).size)).toList := congrArg (fun k => k.raw.toList) first
      _ = (c :: r).take (token c r).size := String.toList_ofList
  refine ⟨(congrArg Lexeme.literal first).symm, ?_, closed⟩
  have atMost := token_size_le closed
  have atLeast := congrArg List.length whole
  rw [length_take, length_cons] at atLeast
  omega

end Scan

/-- A text between two tags is one token that says the text just when the tag is in ASCII: the opening
tag is passed over by as many bytes as it has characters, and what is left of a longer one is taken
for the text. -/
theorem scan_dollars_iff {tag body : String} (word : Dollars.IsTag tag)
    (ends : Dollars.EndsFirst (Dollars.mark tag) body.toList) :
    scan (Dollars.write tag body) = Scan.lone ⟨.string, body, Dollars.write tag body, false⟩ ↔
      ∀ c ∈ tag.toList, c.toNat < 0x80 := by
  have text : (Dollars.write tag body).toList =
      '$' :: (tag.toList ++ '$' :: (body.toList ++ Dollars.mark tag)) := by
    simp [Dollars.write, Dollars.mark]
  have read := Scan.token_dollars word (body.toList ++ Dollars.mark tag)
  rw [← Dollars.mark_ascii_iff]
  constructor
  · intro single
    obtain ⟨meant, whole, closed⟩ := Scan.token_of_scan_eq_lone
      (l := ⟨.string, body, Dollars.write tag body, false⟩) text (by decide) rfl single
    rw [read] at meant whole closed
    refine Scan.ascii_of_dollarQuoted closed ?_ ?_
    · exact String.toList_ofList.symm.trans (congrArg String.toList meant)
    · rw [whole]
      simp [Dollars.mark]
  · intro ascii
    have quoted := Scan.dollarQuoted_of_ascii ascii ends
    have found := read.trans quoted
    refine Scan.scan_eq_lone (l := ⟨.string, body, Dollars.write tag body, false⟩) ?_
    unfold Lexeme.ofText?
    rw [text]
    simp only [Scan.piece_dollar, found]
    simp [Dollars.mark, Scan.nul]
    omega

/-- A text that starts like its tag, holds quotes and NUL and ends with a dollar. -/
theorem scan_dollars_tagged : Dollars.IsTag "t" ∧ Dollars.EndsFirst (Dollars.mark "t") "$t 'a\x00$".toList ∧
    scan (Dollars.write "t" "$t 'a\x00$") =
      Scan.lone ⟨.string, "$t 'a\x00$", "$t$$t 'a\x00$$t$", false⟩ := by
  have word : Dollars.IsTag "t" := by decide
  have ends : Dollars.EndsFirst (Dollars.mark "t") "$t 'a\x00$".toList := by decide
  exact ⟨word, ends, (scan_dollars_iff word ends).2 (by simp)⟩

/-- The last byte of a tag outside ASCII is taken for the text. -/
theorem scan_dollars_accented : Dollars.IsTag "é" ∧ Dollars.EndsFirst (Dollars.mark "é") "x".toList ∧
    scan (Dollars.write "é" "x") = Scan.lone ⟨.string, "$x", Dollars.write "é" "x", false⟩ := by
  refine ⟨by decide, by decide, Scan.scan_eq_lone (l := ⟨.string, "$x", Dollars.write "é" "x", false⟩) ?_⟩
  decide

end TableLineage
