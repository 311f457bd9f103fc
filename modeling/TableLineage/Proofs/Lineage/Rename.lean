import Mathlib.Data.List.TakeWhile
import TableLineage.Proofs.Formula.RoundTrip
import TableLineage.Proofs.Grammar.Faithful
import TableLineage.Proofs.Lineage.Aggregate
import TableLineage.Proofs.Token.Quoting

/-! Renaming a table. The record of a rename is found from the text of the statement alone, however many parts the old
name has and whatever stands in their quotes. The new name goes where the old one was cut, which is at its last
dot, also if that dot stands in quotes. -/
namespace TableLineage

open List

/-! ### Names as they are written -/

/-- Whether a text is one word. -/
def Scan.isWord : List Char → Bool
  | [] => false
  | c :: r => isNameStart c && r.all isNamePart

/-- A name as it is written: a word that is no keyword, or any text in quotes. -/
inductive Ident where
  | bare (word : String) (isWord : Scan.isWord word.toList) (free : Kind.ofWord (Text.lowerWord word) = .ident)
  | quoted (content : String) (clear : Scan.nul ∉ content.toList)

namespace Ident

def text : Ident → String
  | bare word .. => word
  | quoted content _ => Quote.name.write content

def lexeme : Ident → Lexeme
  | bare word .. => ⟨.ident, word, word, false⟩
  | quoted content _ => ⟨.ident, content, Quote.name.write content, true⟩

/-- The names with dots between them. -/
def dotted (parts : List Ident) : String := ".".intercalate (parts.map text)

/-- The names with a dot after each. -/
def qualifier (parts : List Ident) : String := String.join (parts.map (·.text ++ "."))

end Ident

namespace Scan

theorem isDigit_of_isNameStart {c : Char} (start : isNameStart c) : c.isDigit = false := by
  have cases : c.isAlpha ∨ c = '_' ∨ 0x80 ≤ c.toNat := by simpa [isNameStart, or_assoc] using start
  have letters : c.isAlpha = (decide (c.val ≥ 'A'.val ∧ c.val ≤ 'Z'.val) ||
      decide (c.val ≥ 'a'.val) && decide (c.val ≤ 'z'.val)) := rfl
  simp only [letters, Bool.or_eq_true, Bool.and_eq_true, decide_eq_true_eq, Char.toNat] at cases
  obtain letter | rfl | high := cases
  · grind [Char.isDigit]
  · rfl
  · grind [Char.isDigit, UInt32.le_iff_toNat_le]

/-- A word is read up to where it ends. -/
theorem piece_word {c : Char} {r : List Char} (ext : List Char) (start : isNameStart c) (parts : r.all isNamePart)
    (ends : ∀ d ∈ ext.head?, isNamePart d = false) :
    piece c (r ++ ext) = .token (.plain (.ofWord (Text.lowerWord (String.ofList (c :: r)))) (c :: r)) := by
  have other {d : Char} (sign : isNameStart d = false) : c ≠ d := by
    rintro rfl
    cases sign.symm.trans start
  have word : (c :: (r ++ ext)).takeWhile isNamePart = c :: r := by
    have first : isNamePart c := by simp [isNamePart, start]
    have stops : ext.takeWhile isNamePart = [] := by
      cases ext with
      | nil => rfl
      | cons d ext => exact takeWhile_cons_of_neg (by simp [ends d rfl])
    rw [takeWhile_cons_of_pos first, takeWhile_append_of_pos (by simpa using parts), stops, append_nil]
  have space : isSpace c = false := by
    simp [isSpace, other (d := ' ') rfl, other (d := '\t') rfl, other (d := '\n') rfl, other (d := '\r') rfl,
      other (d := '\x0c') rfl]
  have read : token c (r ++ ext) = .plain (.ofWord (Text.lowerWord (String.ofList (c :: r)))) (c :: r) := by
    rw [token]
    simp only [word]
    rw [if_neg (other rfl), if_neg (other rfl), if_neg (other rfl), if_neg, if_pos start]
    simp [isDigit_of_isNameStart start, other (d := '.') rfl]
  unfold piece
  rw [if_neg (by simp [space])]
  split
  · exact absurd rfl (other rfl)
  · exact absurd rfl (other rfl)
  · rw [read]

/-- The text is scanned as the lexemes, without comments or errors, wherever it starts. -/
def Spells (cs : List Char) (ls : List Lexeme) : Prop :=
  ∀ n p, cs.length ≤ n → (pieces n p cs).errors = [] ∧
    (pieces n p cs).tokens.map Token.toLexeme = ls ++ [Grammar.endLexeme]

theorem exists_of_isWord {cs : List Char} (word : isWord cs) :
    ∃ c r, cs = c :: r ∧ isNameStart c ∧ r.all isNamePart := by
  cases cs with
  | nil => cases word
  | cons c r => exact ⟨c, r, rfl, Bool.and_eq_true_iff.1 word⟩

namespace Spells

variable {cs ext : List Char} {ls : List Lexeme}

theorem nil : Spells [] [] := by
  intro n p _
  cases n <;> exact ⟨rfl, rfl⟩

theorem token {c : Char} {r : List Char} {kind : Kind} {literal : List Char} {quoted : Bool} (some : c ≠ nul)
    (found : piece c (r ++ ext) = .token ⟨kind, literal, r.length + 1, quoted, none⟩) (rest : Spells ext ls) :
    Spells (c :: r ++ ext) (⟨kind, String.ofList literal, String.ofList (c :: r), quoted⟩ :: ls) := by
  intro n p enough
  obtain ⟨n, rfl⟩ : ∃ m, n = m + 1 := ⟨n - 1, by simp at enough; omega⟩
  have taken : (c :: (r ++ ext)).take (r.length + 1) = c :: r := by simp
  have left : (c :: (r ++ ext)).drop (r.length + 1) = ext := by simp
  rw [cons_append, pieces, if_neg some, found]
  simp only [taken, left, noting]
  obtain ⟨clean, lexemes⟩ := rest n (p.after (c :: r)) (by simp at enough; omega)
  exact ⟨clean, by rw [map_cons, lexemes]; rfl⟩

theorem blank (rest : Spells ext ls) : Spells (' ' :: ext) ls := by
  intro n p enough
  obtain ⟨n, rfl⟩ : ∃ m, n = m + 1 := ⟨n - 1, by simp at enough; omega⟩
  have scanned : pieces (n + 1) p (' ' :: ext) = pieces n (p.step ' ') ext := by
    rw [pieces, if_neg (by decide)]
    simp only [piece, show isSpace ' ' = true from rfl, if_true]
  rw [scanned]
  exact rest n _ (by simpa using enough)

/-- A lexeme with a blank after it. -/
theorem word {l : Lexeme} (whole : Lexeme.ofText? l.raw = some l) (rest : Spells ext ls) :
    Spells (l.raw.toList ++ ' ' :: ext) (l :: ls) := by
  obtain ⟨c, r, t, text, found, some, known, full, closed, same⟩ := Lexeme.exists_piece whole
  obtain ⟨kind, literal, size, quoted, fault⟩ := t
  cases full
  cases closed
  have next := token some (piece_append_blank rfl found rfl known ext) rest.blank
  rw [← text, String.ofList_toList, ← same] at next
  exact next

theorem dot (starts : startsDigit ext = false) (rest : Spells ext ls) :
    Spells ('.' :: ext) (Kind.dot.lexeme :: ls) := by
  have found : piece '.' ([] ++ ext) = .token ⟨.dot, ['.'], 1, false, none⟩ := by
    change Piece.token (if '.'.isDigit || ('.' = '.' && startsDigit ext) then _ else _) = _
    rw [if_neg (by simp [starts, show '.'.isDigit = false from rfl])]
    rfl
  exact token (by decide) found rest

/-- A name ends where neither a part of a name nor a quote follows. -/
theorem ident (i : Ident) (ends : ∀ c ∈ ext.head?, isNamePart c = false ∧ c ≠ '\x22') (rest : Spells ext ls) :
    Spells (i.text.toList ++ ext) (i.lexeme :: ls) := by
  cases i with
  | bare word isWord free =>
    obtain ⟨c, r, text, start, parts⟩ := exists_of_isWord isWord
    have word : String.ofList (c :: r) = word := by rw [← text, String.ofList_toList]
    have found := piece_word ext start parts fun d head => (ends d head).1
    rw [word, free] at found
    have spelled := token (by rintro rfl; cases start) found rest
    rw [← text, String.ofList_toList] at spelled
    exact spelled
  | quoted content clear =>
    have stops : ext.head? ≠ some Quote.name.mark := fun same => (ends _ same).2 rfl
    have read := quoted_doubled Quote.name.mark_ne_nul clear stops
    have text : (Quote.name.write content).toList = Quote.name.mark :: (doubled Quote.name.mark content.toList ++
      [Quote.name.mark]) := String.toList_ofList
    have found : piece Quote.name.mark ((doubled Quote.name.mark content.toList ++ [Quote.name.mark]) ++ ext) =
        .token ⟨.ident, content.toList, (doubled Quote.name.mark content.toList ++ [Quote.name.mark]).length + 1, true,
          none⟩ := by
      rw [Quote.piece_mark, Quote.token_mark, append_assoc, singleton_append, read]
      simp [Quote.kind, Quote.flag]
    have spelled := token Quote.name.mark_ne_nul found rest
    rw [← text, String.ofList_toList, String.ofList_toList] at spelled
    exact spelled

end Spells
end Scan

namespace Ident

open Scan (Spells)

theorem whole (i : Ident) : Lexeme.ofText? i.lexeme.raw = some i.lexeme := by
  cases i with
  | bare word isWord free =>
    obtain ⟨c, r, text, start, parts⟩ := Scan.exists_of_isWord isWord
    have same : String.ofList (c :: r) = word := by rw [← text, String.ofList_toList]
    have found := Scan.piece_word [] start parts (by simp)
    rw [same, free, append_nil] at found
    have some : c ≠ Scan.nul := by
      rintro rfl
      cases start
    simp only [lexeme, Lexeme.ofText?, text, found]
    simp [some, Scan.Reading.plain, same]
  | quoted content clear => exact Quote.name.ofText?_write clear

@[simp] theorem raw_lexeme (i : Ident) : i.lexeme.raw = i.text := by
  cases i <;> rfl

@[simp] theorem kind_lexeme (i : Ident) : i.lexeme.kind = .ident := by
  cases i <;> rfl

def label (i : Ident) : Label := ⟨i.lexeme, i.whole, by simp [Lexeme.isLabel]⟩

theorem startsDigit_text (i : Ident) (ext : List Char) : Scan.startsDigit (i.text.toList ++ ext) = false := by
  cases i with
  | bare word isWord free =>
    obtain ⟨c, r, text, start, _⟩ := Scan.exists_of_isWord isWord
    simp [Ident.text, text, Scan.startsDigit, Scan.isDigit_of_isNameStart start]
  | quoted content clear =>
    have text : (Quote.name.write content).toList = _ := String.toList_ofList
    rw [Ident.text, text]
    rfl

theorem toList_dotted (i : Ident) (is : List Ident) :
    (dotted (i :: is)).toList = i.text.toList ++ is.flatMap fun j => '.' :: j.text.toList := by
  induction is generalizing i with
  | nil => simp [dotted, String.intercalate_singleton]
  | cons j is ih =>
    rw [dotted, map_cons, String.intercalate_cons_of_ne_nil (by simp), ← dotted]
    simp [ih]

theorem spells_dotted (i : Ident) (is : List Ident) {ext : List Char} {ls : List Lexeme}
    (ends : ∀ c ∈ ext.head?, Scan.isNamePart c = false ∧ c ≠ '\x22') (rest : Spells ext ls) :
    Spells ((dotted (i :: is)).toList ++ ext) (i.lexeme :: (dottedPath (is.map label) ++ ls)) := by
  rw [toList_dotted, append_assoc]
  induction is generalizing i with
  | nil => exact .ident i ends rest
  | cons j is ih =>
    have tail := ih j
    refine .ident i ?_ ?_
    · rintro c ⟨⟩
      exact ⟨rfl, by decide⟩
    · rw [flatMap_cons, append_assoc]
      exact .dot (j.startsDigit_text _) tail

end Ident

/-! ### Parsing -/

open Grammar (Symbol Look Part Class)

theorem Grammar.Part.Yields.attempt {source : List Char} {enter : Symbol → Grammar.Step} {a b : Part Symbol}
    {ts rest : List Token} {ks : List Tree} (first : Part.Yields source enter a ts rest ks) :
    Part.Yields source enter (.attempt a b) ts rest ks := by
  intro acc read last
  dsimp only [Part.run]
  rw [first]

namespace Ident

open Scan (Spells)

variable {source : List Char} {ts rest : List Token} (i new : Ident) (is : List Ident)

theorem isName_of_lexeme {t : Token} (same : t.toLexeme = i.lexeme) : t.isName := by
  rw [same]
  simp [Lexeme.isName]

theorem known_of_lexeme {t : Token} (same : t.toLexeme = i.lexeme) : t.kind ≠ .illegal := by
  rw [same, i.kind_lexeme]
  decide

variable (source) in
/-- The name of a table is read to its last part. -/
theorem yields_qualifiedName (same : ts.map Token.toLexeme = i.lexeme :: dottedPath (is.map label)) (more : rest ≠ [])
    (stopped : Look.dotLabel.holds rest = false) (d : Nat) :
    (Symbol.run source (d + 1) .qualifiedName).Yields ts rest [.covering source .qualifiedName ts (ts.map .leaf)] := by
  obtain ⟨t, us, rfl, head, others⟩ := map_eq_cons_iff.1 same
  have first : Part.Yields source (Symbol.run source d) Part.name [t] (us ++ rest) [.leaf t] :=
    .need (i.isName_of_lexeme head) (i.known_of_lexeme head) (by simp [more])
  have path := repeats_dottedPath source (Symbol.run source d) others more stopped
  exact Part.Yields.node (.seq first (.loop path)) (cons_ne_nil _ _)

theorem qualifiedName_covering (same : ts.map Token.toLexeme = i.lexeme :: dottedPath (is.map label)) :
    ReadMode.exact.qualifiedName (.covering source .qualifiedName ts (ts.map .leaf)) = dotted (i :: is) := by
  have named (t : Token) : (if (Tree.leaf t).is .dot then "." else ReadMode.exact.name (Tree.leaf t).token) =
      (if t.kind = .dot then "." else t.raw) := by
    simp [Tree.is, Tree.token, ReadMode.exact, ReadMode.name]
  have texts : (ts.map fun t => if t.kind = .dot then "." else t.raw) =
      (i.lexeme :: dottedPath (is.map label)).map fun l => if l.kind = .dot then "." else l.raw := by
    rw [← same, map_map]
    rfl
  have leaves : (ts.map Tree.leaf).filter Tree.isLeaf = ts.map .leaf :=
    filter_eq_self.2 fun c member => by
      obtain ⟨t, _, rfl⟩ := mem_map.1 member
      rfl
  rw [ReadMode.qualifiedName, Tree.children_covering, leaves, map_map]
  simp only [Function.comp_def, named, texts]
  rw [← String.toList_inj, toList_dotted]
  have part (j : Ident) : [Kind.dot.lexeme, j.label.lexeme].flatMap (fun l =>
      (if l.kind = .dot then "." else l.raw).toList) = '.' :: j.text.toList := by
    simp [label, Kind.lexeme]
  simp [dottedPath, flatMap_map, map_flatMap, flatMap_assoc, ← part]

variable {alter table rename onto last final : Token}

/-- The tree of a statement that renames a table. -/
def renameTree (source : List Char) (alter table rename onto last : Token) (ts : List Token) : Tree :=
  .covering source .alterRenameStmt (alter :: table :: (ts ++ [rename, onto, last]))
    [.leaf alter, .leaf table, .covering source .qualifiedName ts (ts.map .leaf), .leaf rename, .leaf onto, .leaf last]

variable (source) in
theorem yields_rename (same : ts.map Token.toLexeme = i.lexeme :: dottedPath (is.map label))
    (words : [alter, table, rename, onto].map (·.kind) = [Keyword.ALTER, .TABLE, .RENAME, .TO].map .keyword)
    (named : last.toLexeme = new.lexeme) (ended : final.kind = .eof) (d : Nat) :
    (Symbol.run source (d + 3) .statementBody).Yields (alter :: table :: (ts ++ [rename, onto, last])) [final]
      [renameTree source alter table rename onto last ts] := by
  obtain ⟨isAlter, isTable, isRename, isTo⟩ : alter.kind = .keyword .ALTER ∧ table.kind = .keyword .TABLE ∧
      rename.kind = .keyword .RENAME ∧ onto.kind = .keyword .TO := by simpa using words
  have stopped : Look.dotLabel.holds [rename, onto, last, final] = false := by
    simp [Look.dotLabel, Look.holds, isRename]
  have name := yields_qualifiedName source i is same (cons_ne_nil _ _) stopped d
  have fits : Class.name.holds last.toLexeme := new.isName_of_lexeme named
  have ends : Part.Yields source (Symbol.run source (d + 1))
      (.branch Look.statementEnd .done (.fail .unexpected)) [] [final] [] :=
    .branch_pos (by simp [Look.statementEnd, ended]) .done
  have verb : Part.Yields source (Symbol.run source (d + 1)) (Part.all [.key .RENAME, .key .TO, .name,
      .branch Look.statementEnd .done (.fail .unexpected)]) [rename, onto, last] [final]
      [.leaf rename, .leaf onto, .leaf last] :=
    .seq (.tok isRename (by decide) (by simp)) (.seq (.tok isTo (by decide) (by simp))
      (.seq (.need fits (new.known_of_lexeme named) (by simp)) ends))
  have whole := Part.Yields.seq (.call name) verb
  have rule : (Symbol.run source (d + 2) .alterRename).Yields (alter :: table :: (ts ++ [rename, onto, last])) [final]
      [renameTree source alter table rename onto last ts] :=
    Part.Yields.node
      (.seq (.tok isAlter (by decide) (by simp)) (.seq (.tok isTable (by decide) (by simp)) whole)) (by simp)
  refine Part.Yields.branch_neg (by simp [isAlter]) ?_
  refine .branch_neg (by simp [isAlter]) ?_
  refine .branch_neg (by simp [isAlter]) ?_
  refine .branch_neg (by simp [isAlter]) ?_
  refine .branch_neg (by simp [isAlter]) ?_
  exact .branch_pos (by simp [isAlter]) (.attempt (.call rule))

theorem read_rename (same : ts.map Token.toLexeme = i.lexeme :: dottedPath (is.map label))
    (named : last.toLexeme = new.lexeme) :
    (renameTree source alter table rename onto last ts).read .exact .statement =
      .ok (.alterRename (renameTree source alter table rename onto last ts).span (dotted (i :: is)) new.text) := by
  have kind : last.kind = .ident := (congrArg Lexeme.kind named).trans new.kind_lexeme
  have raw : last.raw = new.text := (congrArg Lexeme.raw named).trans new.raw_lexeme
  rw [Tree.read_eq, ← qualifiedName_covering i is same, ← raw]
  change (Opened.alterRename ((renameTree source alter table rename onto last ts).opened .exact)) = _
  have other : (Tree.leaf last).is (.keyword .TO) = false := by simp [Tree.is, kind]
  change (if !true || (Tree.leaf last).is (.keyword .TO) then _ else _) = _
  rw [other]
  rfl

/-- A text that renames a table. -/
def renameText (name : List Ident) (new : Ident) : String := "ALTER TABLE " ++ dotted name ++ " RENAME TO " ++ new.text

theorem spells_rename : Spells (renameText (i :: is) new).toList
    ((Kind.keyword .ALTER).lexeme :: (Kind.keyword .TABLE).lexeme :: i.lexeme :: (dottedPath (is.map label) ++
      [(Kind.keyword .RENAME).lexeme, (Kind.keyword .TO).lexeme, new.lexeme])) := by
  have whole : ∀ k ∈ [Keyword.ALTER, .TABLE, .RENAME, .TO],
      Lexeme.ofText? (Kind.keyword k).lexeme.raw = some (Kind.keyword k).lexeme := by
    decide +kernel
  have last : Spells (new.text.toList ++ []) [new.lexeme] := .ident new (by simp) .nil
  have verb := ((last.word (whole .TO (by simp))).word (whole .RENAME (by simp))).blank
  have name := spells_dotted i is (by
    rintro c ⟨⟩
    exact ⟨rfl, by decide⟩) verb
  have text := (name.word (whole .TABLE (by simp))).word (whole .ALTER (by simp))
  have front : "ALTER TABLE ".toList = (Kind.keyword .ALTER).lexeme.raw.toList ++
      ' ' :: ((Kind.keyword .TABLE).lexeme.raw.toList ++ [' ']) := by
    decide
  have back : " RENAME TO ".toList = ' ' :: ((Kind.keyword .RENAME).lexeme.raw.toList ++
      ' ' :: ((Kind.keyword .TO).lexeme.raw.toList ++ [' '])) := by
    decide
  change Spells ("ALTER TABLE " ++ dotted (i :: is) ++ " RENAME TO " ++ new.text).toList _
  simpa [front, back] using text

/-- The text of a rename is read as the statement that it is. -/
theorem ofText_rename : ∃ span, Script.ofText false (renameText (i :: is) new) =
    .ok ⟨[.alterRename span (dotted (i :: is)) new.text], []⟩ := by
  obtain ⟨clean, spelled⟩ : (scan (renameText (i :: is) new)).errors = [] ∧
      (scan (renameText (i :: is) new)).tokens.map Token.toLexeme = (Kind.keyword .ALTER).lexeme ::
        (Kind.keyword .TABLE).lexeme :: ((i.lexeme :: dottedPath (is.map label)) ++
          [(Kind.keyword .RENAME).lexeme, (Kind.keyword .TO).lexeme, new.lexeme, Grammar.endLexeme]) := by
    simpa [scan, Scan.ofText] using spells_rename i new is _ .start (Nat.le_refl _)
  obtain ⟨alter, _, tokens, isAlter, spelled⟩ := map_eq_cons_iff.1 spelled
  obtain ⟨table, _, rfl, isTable, spelled⟩ := map_eq_cons_iff.1 spelled
  obtain ⟨ts, _, rfl, same, spelled⟩ := map_eq_append_iff.1 spelled
  obtain ⟨rename, _, rfl, isRename, spelled⟩ := map_eq_cons_iff.1 spelled
  obtain ⟨onto, _, rfl, isTo, spelled⟩ := map_eq_cons_iff.1 spelled
  obtain ⟨last, _, rfl, named, spelled⟩ := map_eq_cons_iff.1 spelled
  obtain ⟨final, rfl, ended⟩ := map_eq_singleton_iff.1 spelled
  have kind : alter.kind = .keyword .ALTER := congrArg Lexeme.kind isAlter
  obtain ⟨d, deep⟩ : ∃ d, Symbol.count * ((alter :: (table :: (ts ++ [rename, onto, last])) ++ [final]).length + 1) =
      d + 2 + 3 := ⟨Symbol.count * (ts.length + 7) - 5, by simp [Symbol.count]; omega⟩
  have words : [alter, table, rename, onto].map (·.kind) = [Keyword.ALTER, .TABLE, .RENAME, .TO].map .keyword := by
    simp [isAlter, isTable, isRename, isTo, Kind.lexeme]
  have body := yields_rename (renameText (i :: is) new).toList i new is same words named (congrArg Lexeme.kind ended) d
  obtain ⟨root, parsed, script⟩ := Script.of_only_statement ended (by simp [kind]) (by simp [kind]) deep body rfl
    (by decide) (read_rename i new is same named)
  have tree : parse (renameText (i :: is) new) = .ok root := by
    refine parse_eq_ok_iff.2 ⟨clean, ?_⟩
    simpa [tokens] using parsed
  rw [Script.ofText, tree]
  dsimp only
  rw [script]
  exact ⟨_, rfl⟩

end Ident

/-! ### The schema of a name -/

theorem schemaOf_eq_empty_iff (name : String) : schemaOf name = "" ↔ '.' ∉ name.toList := by
  have clear : (∀ c ∈ name.toList.reverse, decide (c ≠ '.') = true) ↔ '.' ∉ name.toList := by
    simp only [mem_reverse, decide_eq_true_eq]
    exact ⟨fun all member => all _ member rfl, fun absent c member same => absent (same ▸ member)⟩
  rw [schemaOf, ← String.toList_inj, String.toList_ofList, ← clear, ← dropWhile_eq_nil_iff]
  simp

namespace Ident

theorem dotted_append_singleton (schema : List Ident) (i : Ident) :
    dotted (schema ++ [i]) = qualifier schema ++ i.text := by
  induction schema with
  | nil => simp [dotted, qualifier]
  | cons j schema ih =>
    rw [cons_append, dotted, map_cons, String.intercalate_cons_of_ne_nil (by simp), ← dotted, ih]
    simp [qualifier, String.append_assoc]

theorem schemaOf_qualifier (schema : List Ident) (name : String) :
    schemaOf (qualifier schema ++ name) = qualifier schema ++ schemaOf name := by
  have ends : (qualifier schema).toList.reverse.dropWhile (· ≠ '.') = (qualifier schema).toList.reverse := by
    obtain rfl | ⟨front, last, rfl⟩ := schema.eq_nil_or_concat
    · rfl
    · simp [qualifier]
  rw [← String.toList_inj]
  simp only [schemaOf, String.toList_append, String.toList_ofList, reverse_append, dropWhile_append]
  split
  · next none => rw [ends, List.isEmpty_iff.1 none]; simp
  · simp

end Ident

/-! ### The record of a rename -/

theorem KeyMap.empty_mergeWith {β : Type} (f : β → β → β) (m : KeyMap β) : KeyMap.empty.mergeWith f m = m := by
  refine ext_get? fun k => ?_
  rw [get?_mergeWith, get?_empty]
  cases m.get? k <;> rfl

/-- The record of a single statement has what the statement says, whether records are split or not. -/
theorem Extraction.ofScript_single (split : Bool) (sourceName : String) (x : Statement) :
    ∃ r, (ofScript split [] sourceName ⟨[x], []⟩).records = [r] ∧ r.sinks = x.flow.sinks ∧
      r.sources = x.flow.sources := by
  have own : x.record.sinks = x.flow.sinks ∧ x.record.sources = x.flow.sources := by
    unfold Statement.record
    split <;> exact ⟨rfl, rfl⟩
  cases split with
  | true =>
    obtain ⟨sinks, sources⟩ := finish_content [] sourceName x.record
    rw [Record.exclude_nil] at sinks sources
    exact ⟨_, rfl, sinks.trans own.1, sources.trans own.2⟩
  | false =>
    obtain ⟨sinks, sources⟩ := finish_content [] sourceName (scriptRecord [x])
    rw [Record.exclude_nil] at sinks sources
    obtain ⟨sinks', sources'⟩ := scriptRecord_content [x]
    refine ⟨_, rfl, ?_, ?_⟩
    · rw [sinks, sinks', ← own.1]
      exact KeyMap.empty_mergeWith _ _
    · rw [sources, sources', ← own.2]
      exact KeyMap.empty_mergeWith _ _

open Ident (renameText dotted qualifier)

/-- A rename writes one table, fed by the old name, which is also all that is read. The new name stands where the
old one was cut at its last dot: after the schema, just if the last part of the old name has no dot inside. -/
theorem rename_cuts_at_last_dot (schema : List Ident) (table new : Ident) (split : Bool) (sourceName : String) :
    ∃ e r, Extraction.ofText ⟨split, sourceName, false, []⟩ (renameText (schema ++ [table]) new) = .ok e ∧
      e.diagnostics = [] ∧ e.records = [r] ∧
      r.sinks = .single (qualifier schema ++ schemaOf table.text ++ new.text) (.single (dotted (schema ++ [table]))) ∧
      r.sources = .single (dotted (schema ++ [table])) ∧
      (qualifier schema ++ schemaOf table.text ++ new.text = dotted (schema ++ [new]) ↔ '.' ∉ table.text.toList) := by
  obtain ⟨i, is, name⟩ : ∃ i is, schema ++ [table] = i :: is := List.exists_cons_of_ne_nil (by simp)
  obtain ⟨span, read⟩ := Ident.ofText_rename i new is
  have sink : schemaOf (dotted (i :: is)) = qualifier schema ++ schemaOf table.text := by
    rw [← name, Ident.dotted_append_singleton, Ident.schemaOf_qualifier]
  obtain ⟨r, only, sinks, sources⟩ :=
    Extraction.ofScript_single split sourceName (.alterRename span (dotted (i :: is)) new.text)
  rw [name]
  refine ⟨_, r, Extraction.ofText_of_ok rfl read, rfl, only, ?_, ?_, ?_⟩
  · rw [sinks, ← sink]
    rfl
  · rw [sources]
    rfl
  · rw [Ident.dotted_append_singleton, ← schemaOf_eq_empty_iff, ← String.toList_inj, ← String.toList_inj]
    simp

/-- A dot inside of quotes is taken for the end of the schema. -/
theorem rename_cuts_inside_quotes :
    ((Extraction.ofText ⟨true, "", false, []⟩ "ALTER TABLE \"a.b\" RENAME TO c").toOption.map fun e =>
      e.records.map fun r => (r.sinks.keys, r.sources.keys)) = some [(["\"a.c"], ["\"a.b\""])] := by
  decide +kernel

end TableLineage
