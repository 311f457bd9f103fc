import Mathlib.Data.List.Basic
import Mathlib.Data.List.DropRight
import Mathlib.Data.List.Forall2
import Mathlib.Tactic.SplitIfs
import TableLineage.Format.JsonReader

/-! JSON texts are read back: values that are written on one line, and those that are spread over many. What is
written on one line stays on it. -/
namespace TableLineage

open List

variable {rest : List Char} {c : Char} {v : JsonValue} {d : Nat}

/-! ### Digits -/

theorem head_toDigits (n : Nat) (positive : 0 < n) : (Nat.toDigits 10 n).head? ≠ some '0' := by
  induction n using Nat.strongRecOn with
  | ind n ih =>
    rw [Nat.toDigits_eq_if (by decide)]
    split
    · rename_i small
      have digit : ∀ k < 10, 0 < k → Nat.digitChar k ≠ '0' := by decide
      simpa using digit n small positive
    · rename_i large
      have front := ih (n / 10) (Nat.div_lt_self positive (by decide)) (by omega)
      cases toDigits : Nat.toDigits 10 (n / 10) with
      | nil => exact absurd toDigits Nat.toDigits_ne_nil
      | cons d ds => simpa [toDigits] using front

theorem toList_toString_int (n : Int) :
    ∃ m, (toString n).toList = Nat.toDigits 10 m ∨ (toString n).toList = '-' :: Nat.toDigits 10 m := by
  rw [Int.toString_eq_repr, Int.repr_eq_if]
  split
  · exact ⟨n.toNat, .inl (by simp [Nat.repr_eq_ofList_toDigits])⟩
  · exact ⟨(-n).toNat, .inr (by simp [Nat.repr_eq_ofList_toDigits])⟩

theorem exists_cons_toDigits (m : Nat) : ∃ d ds, Nat.toDigits 10 m = d :: ds ∧ d.isDigit := by
  cases digits : Nat.toDigits 10 m with
  | nil => exact absurd digits Nat.toDigits_ne_nil
  | cons d ds => exact ⟨d, ds, rfl, Nat.isDigit_of_mem_toDigits (by decide) (by decide) (digits ▸ List.mem_cons_self)⟩

namespace JsonReader

/-! ### Strings -/

/-- How a character may be found in a string: as it is, or by its number. -/
inductive StringPart.Stands : StringPart → Char → Prop where
  | char (c : Char) : Stands (.char c) c
  | unit (c : Char) : Stands (.unit c.toNat) c

theorem not_isHigh (c : Char) : isHigh c.toNat = false := by
  have valid : c.toNat < 0xd800 ∨ 0xdfff < c.toNat ∧ c.toNat < 0x110000 := c.valid
  simp only [isHigh, Bool.and_eq_false_iff, decide_eq_false_iff_not]
  omega

theorem not_isLow (c : Char) : isLow c.toNat = false := by
  have valid : c.toNat < 0xd800 ∨ 0xdfff < c.toNat ∧ c.toNat < 0x110000 := c.valid
  simp only [isLow, Bool.and_eq_false_iff, decide_eq_false_iff_not]
  omega

@[simp] theorem loneUnit_toNat (c : Char) : loneUnit c.toNat = c := by
  rw [loneUnit, not_isHigh, not_isLow, Bool.or_false, if_neg Bool.false_ne_true, Char.ofNat_toNat]

theorem assemble_of_stands {ps : List StringPart} {cs : List Char} (stand : List.Forall₂ StringPart.Stands ps cs) :
    assemble ps = cs := by
  induction stand with
  | nil => rfl
  | cons head rest ih =>
    cases head with
    | char c => rw [assemble, ih]
    | unit c =>
      cases rest with
      | nil => simp [assemble]
      | cons next _ =>
        cases next with
        | char d => rw [assemble, ih, loneUnit_toNat]; exact fun _ _ h => by cases h
        | unit d => rw [assemble, not_isHigh, Bool.false_and, if_neg Bool.false_ne_true, ih, loneUnit_toNat]

theorem hexValue?_hexDigit : ∀ k < 16, hexValue? (Text.hexDigit k) = some k := by decide

theorem readParts_unicodeEscape (small : c.toNat < 0x10000) (rest : List Char) :
    readParts (JsonValue.unicodeEscape c ++ rest) = cons (.unit c.toNat) (readParts rest) := by
  have digits (n : Nat) : hexValue? (Text.hexDigit (n % 16)) = some (n % 16) :=
    hexValue?_hexDigit _ (Nat.mod_lt _ (by decide))
  have number : ((c.toNat / 16 / 16 / 16 % 16 * 16 + c.toNat / 16 / 16 % 16) * 16 + c.toNat / 16 % 16) * 16 +
      c.toNat % 16 = c.toNat := by omega
  have unit : unit? (Text.hexDigit (c.toNat / 16 / 16 / 16 % 16)) (Text.hexDigit (c.toNat / 16 / 16 % 16))
      (Text.hexDigit (c.toNat / 16 % 16)) (Text.hexDigit (c.toNat % 16)) = some c.toNat := by
    simp only [unit?, digits, Option.bind_eq_bind, Option.bind_some, Option.pure_def, number]
  change readParts ('\\' :: 'u' :: _ :: _ :: _ :: _ :: rest) = _
  rw [readParts, unit]

theorem readParts_cons (notQuote : c ≠ '\x22') (notEscape : c ≠ '\\') (shown : ¬ c.toNat < 0x20) (rest : List Char) :
    readParts (c :: rest) = cons (.char c) (readParts rest) := by
  rw [readParts.eq_def]
  split <;> simp_all
  all_goals omega

theorem readParts_stringChar (c : Char) (rest : List Char) :
    ∃ p, StringPart.Stands p c ∧ readParts (JsonValue.stringChar c ++ rest) = cons p (readParts rest) := by
  unfold JsonValue.stringChar
  split_ifs with quoted lineFeed carriage tab back form numbered
  · refine ⟨_, .char c, ?_⟩
    rcases (by simpa using quoted : c = '\x22' ∨ c = '\\') with rfl | rfl <;> rfl
  · subst lineFeed; exact ⟨_, .char _, rfl⟩
  · subst carriage; exact ⟨_, .char _, rfl⟩
  · subst tab; exact ⟨_, .char _, rfl⟩
  · subst back; exact ⟨_, .char _, rfl⟩
  · subst form; exact ⟨_, .char _, rfl⟩
  · refine ⟨_, .unit c, readParts_unicodeEscape ?_ rest⟩
    simp only [Bool.or_eq_true, decide_eq_true_eq] at numbered
    rcases numbered with ((((small | rfl) | rfl) | rfl) | rfl) | rfl
    · omega
    all_goals decide
  · simp only [Bool.or_eq_true, decide_eq_true_eq, not_or] at quoted numbered
    exact ⟨_, .char c, readParts_cons quoted.1 quoted.2 numbered.1.1.1.1.1 rest⟩

theorem readParts_flatMap (cs rest : List Char) :
    ∃ ps, List.Forall₂ StringPart.Stands ps cs ∧
      readParts (cs.flatMap JsonValue.stringChar ++ '\x22' :: rest) = .ok (ps, rest) := by
  induction cs with
  | nil => exact ⟨[], .nil, rfl⟩
  | cons c cs ih =>
    obtain ⟨ps, stand, read⟩ := ih
    obtain ⟨p, stands, step⟩ := readParts_stringChar c (cs.flatMap JsonValue.stringChar ++ '\x22' :: rest)
    refine ⟨p :: ps, .cons stands stand, ?_⟩
    rw [flatMap_cons, append_assoc, step, read]
    rfl

/-- A string is read back from behind its opening quote. -/
theorem readString_stringText (s : String) (rest : List Char) :
    readString (s.toList.flatMap JsonValue.stringChar ++ '\x22' :: rest) = .ok (s, rest) := by
  obtain ⟨ps, stand, read⟩ := readParts_flatMap s.toList rest
  rw [readString, read]
  simp [Except.map, assemble_of_stands stand]

/-! ### Numbers -/

/-- What may follow a number: nothing that would go on with it. -/
def Ends (rest : List Char) : Prop := ∀ c ∈ rest.head?, c.isDigit = false ∧ c ≠ '.' ∧ c ≠ 'e' ∧ c ≠ 'E'

theorem digits_append (context : JsonContext) {ds : List Char} (some : ds ≠ []) (all : ∀ c ∈ ds, c.isDigit = true)
    (ends : ∀ c ∈ rest.head?, c.isDigit = false) : digits context (ds ++ rest) = .ok (ds, rest) := by
  have front : (ds ++ rest).takeWhile Char.isDigit = ds := by
    rw [takeWhile_append_of_pos all]
    cases rest with
    | nil => simp
    | cons c rest => simp [ends c rfl]
  have back : (ds ++ rest).dropWhile Char.isDigit = rest := by
    rw [dropWhile_append_of_pos all]
    cases rest with
    | nil => simp
    | cons c rest => simp [ends c rfl]
  rw [digits, front, back]
  cases ds with
  | nil => exact absurd rfl some
  | cons d ds => rfl

theorem wholePart_toDigits (n : Nat) (ends : Ends rest) :
    wholePart (Nat.toDigits 10 n ++ rest) = .ok (Nat.toDigits 10 n, rest) := by
  rcases Nat.eq_zero_or_pos n with rfl | positive
  · rfl
  · have first := head_toDigits n positive
    have read : digits .inNumber (Nat.toDigits 10 n ++ rest) = .ok (Nat.toDigits 10 n, rest) :=
      digits_append .inNumber Nat.toDigits_ne_nil
        (fun c member => Nat.isDigit_of_mem_toDigits (by decide) (by decide) member) fun c here => (ends c here).1
    cases toDigits : Nat.toDigits 10 n with
    | nil => exact absurd toDigits Nat.toDigits_ne_nil
    | cons d ds =>
      rw [toDigits] at first read
      rw [cons_append, wholePart, ← cons_append, read]
      rintro _ ⟨⟩
      exact first rfl

theorem unsignedNumber_toDigits (n : Nat) (ends : Ends rest) :
    unsignedNumber (Nat.toDigits 10 n ++ rest) = .ok (Nat.toDigits 10 n, rest) := by
  have fraction : fractionPart rest = .ok ([], rest) := by
    cases rest with
    | nil => rfl
    | cons c rest =>
      rw [fractionPart]
      rintro _ ⟨⟩
      exact (ends '.' rfl).2.1 rfl
  have exponent : exponentPart rest = .ok ([], rest) := by
    cases rest with
    | nil => rfl
    | cons c rest =>
      have stops := ends c rfl
      simp [exponentPart, stops.2.2]
  simp [unsignedNumber, wholePart_toDigits n ends, fraction, exponent, Except.bind, Except.map]

/-- A whole number is read back. -/
theorem readNumber_int (n : Int) (ends : Ends rest) :
    readNumber ((toString n).toList ++ rest) = .ok (.int n, rest) := by
  obtain ⟨m, plain | signed⟩ := toList_toString_int n
  · have text : toString n = String.ofList (Nat.toDigits 10 m) := plain ▸ String.ofList_toList.symm
    obtain ⟨d, ds, digits, digit⟩ := exists_cons_toDigits m
    rw [plain, JsonValue.int, text, readNumber, unsignedNumber_toDigits m ends]
    · rfl
    · rw [digits]
      rintro _ ⟨⟩
      exact absurd digit (by decide)
  · have text : toString n = String.ofList ('-' :: Nat.toDigits 10 m) := signed ▸ String.ofList_toList.symm
    rw [signed, JsonValue.int, text, cons_append, readNumber, unsignedNumber_toDigits m ends]
    rfl

end JsonReader

namespace JsonValue

/-- The value is at most so many levels deep, and its numbers are whole. -/
def Fits : Nat → JsonValue → Prop
  | _, .null => True
  | _, .bool _ => True
  | _, .num t => ∃ n : Int, t = toString n
  | _, .str _ => True
  | 0, .arr _ => False
  | d + 1, .arr vs => ∀ v ∈ vs, Fits d v
  | 0, .obj _ => False
  | d + 1, .obj fs => ∀ f ∈ fs, Fits d f.2

theorem Fits.int (d : Nat) (n : Int) : Fits d (.int n) := by
  rw [JsonValue.int, Fits]
  exact ⟨n, rfl⟩

theorem isBlank_indent (spread : Bool) (depth : Nat) : ∀ c ∈ indent spread depth, JsonReader.isBlank c := by
  intro c member
  cases spread with
  | false => cases member
  | true =>
    rcases mem_cons.1 member with rfl | member
    · rfl
    · rw [eq_of_mem_replicate member]
      rfl

theorem head_toString_int (n : Int) : ∃ c cs, (toString n).toList = c :: cs ∧ (c = '-' || c.isDigit) := by
  obtain ⟨m, plain | signed⟩ := toList_toString_int n
  · obtain ⟨c, cs, digits, digit⟩ := exists_cons_toDigits m
    exact ⟨c, cs, plain.trans digits, by simp [digit]⟩
  · exact ⟨_, _, signed, rfl⟩

/-- A value starts neither with a blank nor with the end of a list. -/
theorem head_text {d : Nat} {v : JsonValue} (fits : v.Fits d) (spread : Bool) (depth : Nat) :
    ∃ c cs, v.text spread depth = c :: cs ∧ JsonReader.isBlank c = false ∧ c ≠ ']' := by
  cases v with
  | null => exact ⟨_, _, rfl, by decide, by decide⟩
  | bool b => cases b <;> exact ⟨_, _, rfl, by decide, by decide⟩
  | num t =>
    rw [Fits] at fits
    obtain ⟨n, rfl⟩ := fits
    obtain ⟨c, cs, text, starts⟩ := head_toString_int n
    refine ⟨c, cs, text, ?_, ?_⟩
    · by_contra blank
      simp only [JsonReader.isBlank, Bool.not_eq_false, Bool.or_eq_true, decide_eq_true_eq] at blank
      rcases blank with ((rfl | rfl) | rfl) | rfl <;> exact absurd starts (by decide)
    · rintro rfl
      exact absurd starts (by decide)
  | str s => exact ⟨_, _, rfl, by decide, by decide⟩
  | arr vs => cases vs <;> exact ⟨_, _, rfl, by decide, by decide⟩
  | obj fs => cases fs <;> exact ⟨_, _, rfl, by decide, by decide⟩

end JsonValue

namespace JsonReader

open JsonValue

/-! ### Values -/

theorem skipBlanks_append {gap : List Char} (blank : ∀ c ∈ gap, isBlank c) (cs : List Char) :
    skipBlanks (gap ++ cs) = skipBlanks cs := dropWhile_append_of_pos blank

theorem skipBlanks_cons (shown : isBlank c = false) (cs : List Char) : skipBlanks (c :: cs) = c :: cs := by
  simp [skipBlanks, shown]

theorem skipBlanks_skipBlanks (cs : List Char) : skipBlanks (skipBlanks cs) = skipBlanks cs :=
  dropWhile_idempotent ..

theorem skipBlanks_indent (spread : Bool) (depth : Nat) (shown : isBlank c = false) (cs : List Char) :
    skipBlanks (indent spread depth ++ c :: cs) = c :: cs := by
  rw [skipBlanks_append (isBlank_indent spread depth), skipBlanks_cons shown]

theorem readValue_skipBlanks (fuel level : Nat) (cs : List Char) :
    readValue fuel level (skipBlanks cs) = readValue fuel level cs := by
  cases fuel with
  | zero => rfl
  | succ fuel => rw [readValue, readValue, skipBlanks_skipBlanks]

theorem readItems_skipBlanks (fuel level : Nat) (cs : List Char) :
    readItems fuel level (skipBlanks cs) = readItems fuel level cs := by
  cases fuel with
  | zero => rfl
  | succ fuel => rw [readItems, readItems, readValue_skipBlanks]

theorem readFields_skipBlanks (fuel level : Nat) (cs : List Char) :
    readFields fuel level (skipBlanks cs) = readFields fuel level cs := by
  cases fuel with
  | zero => rfl
  | succ fuel => rw [readFields, readFields, skipBlanks_skipBlanks]

theorem readValue_gap {gap : List Char} (blank : ∀ c ∈ gap, isBlank c) (fuel level : Nat) (cs : List Char) :
    readValue fuel level (gap ++ cs) = readValue fuel level cs := by
  rw [← readValue_skipBlanks, skipBlanks_append blank, readValue_skipBlanks]

theorem Ends.cons (stops : (c.isDigit || c = '.' || c = 'e' || c = 'E') = false) (rest : List Char) :
    Ends (c :: rest) := by
  rintro _ ⟨⟩
  simpa [and_assoc] using stops

theorem Ends.indent (spread : Bool) (depth : Nat) (ends : Ends rest) : Ends (indent spread depth ++ rest) := by
  cases spread with
  | false => exact ends
  | true => exact .cons rfl _

theorem readValue_int (n : Int) (fuel level : Nat) (ends : Ends rest) :
    readValue (fuel + 1) level ((toString n).toList ++ rest) = .ok (.int n, rest) := by
  obtain ⟨c, cs, text, starts⟩ := head_toString_int n
  -- No other value starts like a number.
  have other {x : Char} (different : (x = '-' || x.isDigit) = false) : c ≠ x := by
    rintro rfl
    exact Bool.false_ne_true (different.symm.trans starts)
  have number := readNumber_int n ends
  have shown : isBlank c = false := by
    simp [isBlank, other (x := ' ') rfl, other (x := '\t') rfl, other (x := '\r') rfl, other (x := '\n') rfl]
  rw [text, cons_append] at number ⊢
  rw [readValue, skipBlanks_cons shown]
  simp only [other (x := '\x7b') rfl, other (x := '[') rfl, other (x := '\x22') rfl, other (x := 't') rfl,
    other (x := 'f') rfl, other (x := 'n') rfl, starts, if_true, if_false, number]

/-- The value is read back from what is written of it, at some level of the reader. -/
def Reads (spread : Bool) (depth level : Nat) (v : JsonValue) : Prop :=
  ∀ (fuel : Nat) (rest : List Char), (v.text spread depth).length ≤ fuel → Ends rest →
    readValue fuel level (v.text spread depth ++ rest) = .ok (v, rest)

variable {level : Nat}

theorem readItems_items {spread : Bool} {depth : Nat} {vs : List JsonValue}
    (each : ∀ v ∈ vs, Reads spread depth level v) (some : vs ≠ []) (fuel : Nat)
    (enough : (items spread depth vs).length < fuel) (outer : Nat) (rest : List Char) :
    readItems fuel level (items spread depth vs ++ (indent spread outer ++ ']' :: rest)) = .ok (vs, rest) := by
  induction vs generalizing fuel with
  | nil => exact absurd rfl some
  | cons v vs ih =>
    obtain ⟨first, others⟩ := forall_mem_cons.1 each
    obtain ⟨fuel, rfl⟩ : ∃ more, fuel = more + 1 := ⟨fuel - 1, by omega⟩
    simp only [items, length_append] at enough
    simp only [items, append_assoc]
    rw [readItems, readValue_gap (isBlank_indent spread depth)]
    cases vs with
    | nil =>
      have read := first fuel (indent spread outer ++ ']' :: rest) (by omega) (.indent spread outer (.cons rfl rest))
      simp [comma, items, read, skipBlanks_indent spread outer (c := ']') rfl]
    | cons w vs =>
      have next := ih others (by simp) fuel (by simp [comma] at enough; omega)
      have read := first fuel (',' :: (items spread depth (w :: vs) ++ (indent spread outer ++ ']' :: rest))) (by omega)
        (.cons rfl _)
      simp only [comma, isEmpty_cons, Bool.false_eq_true, if_false, singleton_append]
      rw [read]
      simp only [skipBlanks_cons (c := ',') rfl, next, Except.map]

/-- What is left to read of fields, once a field has been read. -/
def afterField (fuel level : Nat) (field : String × JsonValue) (cs : List Char) : Reading (List (String × JsonValue)) :=
  match cs with
  | ',' :: r => (readFields fuel level r).map fun (fs, rest) => (field :: fs, rest)
  | '\x7d' :: r => .ok ([field], r)
  | r => .error (faultAt .afterField r)

theorem readFields_field (spread : Bool) (depth : Nat) (k : String) {fuel : Nat} {t : List Char}
    (read : readValue fuel level t = .ok (v, rest)) :
    readFields (fuel + 1) level (indent spread depth ++ (stringText k ++ (colon spread ++ t))) =
      afterField fuel level (k, v) (skipBlanks rest) := by
  obtain ⟨gap, blank, text⟩ : ∃ gap, (∀ c ∈ gap, isBlank c) ∧ colon spread = ':' :: gap := by
    cases spread
    · exact ⟨[], by simp, rfl⟩
    · exact ⟨[' '], by simp; rfl, rfl⟩
  rw [← readValue_gap blank] at read
  rw [readFields, stringText, text, cons_append, cons_append, skipBlanks_indent spread depth rfl,
    append_assoc]
  simp only [cons_append, nil_append, readString_stringText, skipBlanks_cons (c := ':') rfl, read]
  rfl

theorem readFields_fields {spread : Bool} {depth : Nat} {fs : List (String × JsonValue)}
    (each : ∀ f ∈ fs, Reads spread depth level f.2) (some : fs ≠ []) (fuel : Nat)
    (enough : (fields spread depth fs).length < fuel) (outer : Nat) (rest : List Char) :
    readFields fuel level (fields spread depth fs ++ (indent spread outer ++ '\x7d' :: rest)) = .ok (fs, rest) := by
  induction fs generalizing fuel with
  | nil => exact absurd rfl some
  | cons f fs ih =>
    obtain ⟨first, others⟩ := forall_mem_cons.1 each
    obtain ⟨fuel, rfl⟩ : ∃ more, fuel = more + 1 := ⟨fuel - 1, by omega⟩
    simp only [fields, length_append] at enough
    simp only [fields, append_assoc]
    cases fs with
    | nil =>
      have read := first fuel (indent spread outer ++ '\x7d' :: rest) (by omega) (.indent spread outer (.cons rfl rest))
      have step := readFields_field spread depth f.1 read
      simpa [comma, fields, skipBlanks_indent spread outer (c := '\x7d') rfl, afterField] using step
    | cons g fs =>
      have next := ih others (by simp) fuel (by simp [comma] at enough; omega)
      have read := first fuel (',' :: (fields spread depth (g :: fs) ++ (indent spread outer ++ '\x7d' :: rest)))
        (by omega) (.cons rfl _)
      have step := readFields_field spread depth f.1 read
      simp only [skipBlanks_cons (c := ',') rfl, afterField, next, Except.map] at step
      simpa [comma] using step

/-- Whatever way a value is written, it is read back. -/
theorem readValue_text (fits : v.Fits d) (spread : Bool) (depth : Nat) (shallow : level + d ≤ maxDepth) :
    Reads spread depth level v := by
  induction d using Nat.strongRecOn generalizing v depth level with
  | ind d ih =>
    intro fuel rest enough ends
    obtain ⟨c, cs, text, -⟩ := head_text fits spread depth
    obtain ⟨fuel, rfl⟩ : ∃ more, fuel = more + 1 := by
      rw [text, length_cons] at enough
      exact ⟨fuel - 1, by omega⟩
    cases v with
    | null => rfl
    | bool b => cases b <;> rfl
    | num t =>
      rw [Fits] at fits
      obtain ⟨n, rfl⟩ := fits
      exact readValue_int n fuel level ends
    | str s =>
      rw [JsonValue.text, stringText, cons_append, cons_append, append_assoc, readValue, skipBlanks_cons rfl]
      simp [readString_stringText, Except.map]
    | arr vs =>
      cases d with
      | zero => exact fits.elim
      | succ d =>
        have room : ¬ maxDepth ≤ level := by omega
        cases vs with
        | nil => simp [JsonValue.text, readValue, skipBlanks_cons (c := '[') rfl, skipBlanks_cons (c := ']') rfl, room]
        | cons v vs =>
          have each : ∀ w ∈ v :: vs, Reads spread (depth + 1) (level + 1) w := fun w member =>
            ih d (Nat.lt_succ_self d) (fits w member) (depth + 1) (by omega)
          have read := readItems_items each (by simp) fuel (by simp [JsonValue.text] at enough; omega) depth rest
          obtain ⟨c, cs, first, shown, inside⟩ := head_text (fits v mem_cons_self) spread (depth + 1)
          have start : ∃ more, skipBlanks (items spread (depth + 1) (v :: vs) ++ (indent spread depth ++ ']' :: rest)) =
              c :: more := by
            rw [items, append_assoc, append_assoc, append_assoc, first, cons_append,
              skipBlanks_indent spread (depth + 1) shown]
            exact ⟨_, rfl⟩
          obtain ⟨more, start⟩ := start
          rw [← readItems_skipBlanks, start] at read
          simp [JsonValue.text, readValue, skipBlanks_cons (c := '[') rfl, start, inside, room, read, Except.map]
    | obj fs =>
      cases d with
      | zero => exact fits.elim
      | succ d =>
        have room : ¬ maxDepth ≤ level := by omega
        cases fs with
        | nil =>
          simp [JsonValue.text, readValue, skipBlanks_cons (c := '\x7b') rfl, skipBlanks_cons (c := '\x7d') rfl, room]
        | cons f fs =>
          have each : ∀ g ∈ f :: fs, Reads spread (depth + 1) (level + 1) g.2 := fun g member =>
            ih d (Nat.lt_succ_self d) (fits g member) (depth + 1) (by omega)
          have read := readFields_fields each (by simp) fuel (by simp [JsonValue.text] at enough; omega) depth rest
          have start : ∃ more, skipBlanks (fields spread (depth + 1) (f :: fs) ++ (indent spread depth ++ '\x7d' :: rest)) =
              '\x22' :: more := by
            rw [fields, append_assoc, append_assoc, append_assoc, append_assoc, append_assoc,
              stringText, cons_append, cons_append, skipBlanks_indent spread (depth + 1) rfl]
            exact ⟨_, rfl⟩
          obtain ⟨more, start⟩ := start
          rw [← readFields_skipBlanks, start] at read
          simp [JsonValue.text, readValue, skipBlanks_cons (c := '\x7b') rfl, start, room, read, Except.map]

end JsonReader

namespace JsonValue

/-! ### Texts of one value -/

/-- The value of a text that holds one value and, but for blanks, nothing else. -/
def sole? (text : String) : Option JsonValue :=
  match JsonReader.readValue (2 * text.toList.length + 2) 0 text.toList with
  | .ok (v, rest) => if (JsonReader.skipBlanks rest).isEmpty then some v else none
  | .error _ => none

theorem sole?_eq (fits : v.Fits d) (shallow : d ≤ JsonReader.maxDepth) (spread : Bool) {after : List Char}
    (back : after.all JsonReader.isBlank) : sole? (String.ofList (v.text spread 0 ++ after)) = some v := by
  have ends : JsonReader.Ends after := by
    intro c first
    have blank := all_eq_true.1 back c (mem_of_head? first)
    simp only [JsonReader.isBlank, Bool.or_eq_true, decide_eq_true_eq] at blank
    rcases blank with ((rfl | rfl) | rfl) | rfl <;> decide
  have read := JsonReader.readValue_text fits spread 0 ((Nat.zero_add d).le.trans shallow)
    (2 * (v.text spread 0 ++ after).length + 2) after (by rw [length_append]; omega) ends
  have blank : JsonReader.skipBlanks after = [] := dropWhile_eq_nil_iff.2 (all_eq_true.1 back)
  rw [sole?, String.toList_ofList, read]
  simp [blank]

/-! ### Texts of one line -/

/-- Neither a control character nor one of the line ends of Unicode. -/
def Inline (c : Char) : Prop := 0x20 ≤ c.toNat ∧ c ≠ '\u2028' ∧ c ≠ '\u2029'

instance (c : Char) : Decidable (Inline c) := inferInstanceAs (Decidable (_ ∧ _ ∧ _))

/-- A text that stays on its line. -/
def OneLine (cs : List Char) : Prop := ∀ c ∈ cs, Inline c

@[simp] theorem oneLine_nil : OneLine [] := by simp [OneLine]

@[simp] theorem oneLine_cons (c : Char) (cs : List Char) : OneLine (c :: cs) ↔ Inline c ∧ OneLine cs :=
  forall_mem_cons

@[simp] theorem oneLine_append (cs ds : List Char) : OneLine (cs ++ ds) ↔ OneLine cs ∧ OneLine ds :=
  forall_mem_append

instance (cs : List Char) : Decidable (OneLine cs) := decidableBAll Inline cs

theorem inline_of_isDigit (digit : c.isDigit) : Inline c := by
  have low : 48 ≤ c.toNat := by
    simp only [Char.isDigit, Bool.and_eq_true, decide_eq_true_eq] at digit
    exact digit.1
  refine ⟨by omega, ?_, ?_⟩ <;> rintro rfl <;> exact absurd digit (by decide)

theorem oneLine_hex (width n : Nat) : OneLine (Text.hex width n) := by
  have digits : ∀ k < 16, Inline (Text.hexDigit k) := by decide
  induction width generalizing n with
  | zero => exact oneLine_nil
  | succ width ih => simp [Text.hex, ih, digits _ (Nat.mod_lt n (by decide : 0 < 16))]

theorem oneLine_stringChar (c : Char) : OneLine (stringChar c) := by
  unfold stringChar
  split_ifs with quoted _ _ _ _ _ numbered
  · rcases (by simpa using quoted : c = '\x22' ∨ c = '\\') with rfl | rfl <;> decide
  · decide
  · decide
  · decide
  · decide
  · decide
  · simp only [unicodeEscape, oneLine_cons, oneLine_hex, and_true]
    decide
  · simp only [Bool.or_eq_true, decide_eq_true_eq, not_or, not_lt] at numbered
    simpa [Inline] using ⟨numbered.1.1.1.1.1, numbered.1.2, numbered.2⟩

theorem oneLine_stringText (s : String) : OneLine (stringText s) := by
  have inside : OneLine (s.toList.flatMap stringChar) := by
    intro c member
    obtain ⟨x, _, inside⟩ := mem_flatMap.1 member
    exact oneLine_stringChar x c inside
  have quote : Inline '\x22' := by decide
  simp [stringText, inside, quote]

theorem oneLine_comma {α : Type} (behind : List α) : OneLine (comma behind) := by
  have sign : Inline ',' := by decide
  cases behind <;> simp [comma, sign]

theorem oneLine_int (n : Int) : OneLine (toString n).toList := by
  have digits (m : Nat) : OneLine (Nat.toDigits 10 m) := fun c member =>
    inline_of_isDigit (Nat.isDigit_of_mem_toDigits (by decide) (by decide) member)
  obtain ⟨m, plain | signed⟩ := toList_toString_int n
  · rw [plain]
    exact digits m
  · rw [signed]
    exact (oneLine_cons ..).2 ⟨by decide, digits m⟩

section

variable (each : ∀ {v : JsonValue}, v.Fits d → ∀ depth, OneLine (v.text false depth))
include each

theorem oneLine_items {vs : List JsonValue} (fit : ∀ v ∈ vs, v.Fits d) (depth : Nat) :
    OneLine (items false depth vs) := by
  induction vs with
  | nil => exact oneLine_nil
  | cons v vs ih =>
    obtain ⟨first, others⟩ := forall_mem_cons.1 fit
    simp [items, indent, oneLine_comma, each first, ih others]

theorem oneLine_fields {fs : List (String × JsonValue)} (fit : ∀ f ∈ fs, f.2.Fits d) (depth : Nat) :
    OneLine (fields false depth fs) := by
  have colon : OneLine (colon false) := by decide
  induction fs with
  | nil => exact oneLine_nil
  | cons f fs ih =>
    obtain ⟨first, others⟩ := forall_mem_cons.1 fit
    simp [fields, indent, oneLine_comma, colon, oneLine_stringText, each first, ih others]

end

/-- The text without blanks is on one line. -/
theorem oneLine_text (fits : v.Fits d) (depth : Nat) : OneLine (v.text false depth) := by
  have signs : Inline '[' ∧ Inline ']' ∧ Inline '\x7b' ∧ Inline '\x7d' := by decide
  induction d using Nat.strongRecOn generalizing v depth with
  | ind d ih =>
    cases v with
    | null =>
      rw [text]
      decide
    | bool b =>
      rw [text]
      cases b <;> decide
    | num t =>
      rw [Fits] at fits
      obtain ⟨n, rfl⟩ := fits
      exact oneLine_int n
    | str s => exact oneLine_stringText s
    | arr vs =>
      cases d with
      | zero => exact fits.elim
      | succ d => cases vs <;> simp [text, indent, signs, oneLine_items (ih d (Nat.lt_succ_self d)) fits]
    | obj fs =>
      cases d with
      | zero => exact fits.elim
      | succ d => cases fs <;> simp [text, indent, signs, oneLine_fields (ih d (Nat.lt_succ_self d)) fits]

end JsonValue
end TableLineage
