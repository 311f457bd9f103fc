import TableLineage.Proofs.Grammar.Frontier
import TableLineage.Proofs.Token.Lossless

/-! The tree of a text loses and invents nothing: its leaves are the tokens of the text, and
its nodes say truly which of them they cover. -/
namespace TableLineage

open List
open Position (past)

namespace Tree

mutual

theorem Bounded.of_mem_nodesFrom {source : List Char} (d : Nat) : (t : Tree) → t.Bounded source →
    ∀ {k : Nat} {n : Tree}, (k, n) ∈ t.nodesFrom d → n.Bounded source ∧ n.leaves.Sublist t.leaves
  | .leaf _, _, _, _, member => absurd member (by simp [nodesFrom])
  | .node r f l x cs, bounded, k, n, member => by
    rw [nodesFrom] at member
    obtain same | inside := mem_cons.1 member
    · cases same
      exact ⟨bounded, .refl _⟩
    · cases bounded with
      | node edges all => exact Bounded.of_mem_nodesFromAll (d + 1) cs all inside

theorem Bounded.of_mem_nodesFromAll {source : List Char} (d : Nat) : (ts : List Tree) →
    (∀ t ∈ ts, t.Bounded source) →
    ∀ {k : Nat} {n : Tree}, (k, n) ∈ nodesFromAll d ts → n.Bounded source ∧ n.leaves.Sublist (leavesAll ts)
  | [], _, _, _, member => absurd member (by simp [nodesFromAll])
  | t :: ts, all, k, n, member => by
    rw [nodesFromAll] at member
    obtain first | later := mem_append.1 member
    · obtain ⟨bounded, sub⟩ := Bounded.of_mem_nodesFrom d t (all t mem_cons_self) first
      exact ⟨bounded, sub.trans (sublist_append_left _ _)⟩
    · obtain ⟨bounded, sub⟩ :=
        Bounded.of_mem_nodesFromAll d ts (fun u inside => all u (mem_cons_of_mem t inside)) later
      exact ⟨bounded, sub.trans (sublist_append_right _ _)⟩

end

/-- The node starts with its first leaf, stops with its last, and has all the text between. -/
def Delimits (text : List Char) (n : Tree) : Prop :=
  n.leaves.head? = some n.first ∧ n.leaves.getLast? = some n.last ∧ n.span.Holds text n.text

theorem mem_leaves_of_child {t n : Tree} (member : n ∈ t.children) {u : Token} (among : u ∈ n.leaves) : u ∈ t.leaves := by
  cases t with
  | leaf => cases member
  | node r f l x cs =>
    obtain ⟨front, back, rfl⟩ := append_of_mem member
    simp [leaves, leavesAll, among]

theorem Bounded.child {source : List Char} {t c : Tree} (bounded : t.Bounded source) (member : c ∈ t.children) :
    c.Bounded source := by
  cases bounded with
  | leaf => cases member
  | node _ all => exact all c member

end Tree

theorem Span.Holds.start_le_stop {span : Span} {text : List Char} {raw : String} (holds : span.Holds text raw) :
    span.start.offset ≤ span.stop.offset := by
  obtain ⟨front, _, _, rfl⟩ := holds
  simp [past]

section

variable {text : List Char} {ts : List Token} {first last : Token} (stand : ∀ t ∈ ts, t.span.Holds text t.raw)
  (order : ts.Pairwise fun a b => a.span.Precedes b.span) (head : ts.head? = some first)
  (tail : ts.getLast? = some last)

include stand order head tail

theorem start_le_stop_of_inOrder : first.span.start.offset ≤ last.span.stop.offset := by
  have starts := (stand first (mem_of_head? head)).start_le_stop
  have stops := (stand last (mem_of_getLast? tail)).start_le_stop
  obtain ⟨rest, rfl⟩ := head?_eq_some_iff.1 head
  cases rest with
  | nil =>
    cases tail
    exact starts
  | cons t rest =>
    have later : last ∈ t :: rest := mem_of_getLast? (by simpa using tail)
    have before : first.span.stop.offset ≤ last.span.start.offset := (pairwise_cons.1 order).1 last later
    omega

/-- Where tokens stand in a text in their order, the slice from the first of them to the last is
the text between. -/
theorem Span.holds_slice : Span.Holds ⟨first.span.start, last.span.stop⟩ text
    (String.ofList (Text.slice text first.span.start.offset last.span.stop.offset)) := by
  have less := start_le_stop_of_inOrder stand order head tail
  obtain ⟨front, rest, split, place⟩ := stand first (mem_of_head? head)
  obtain ⟨before, back, split', place'⟩ := stand last (mem_of_getLast? tail)
  rw [← append_assoc] at split'
  rw [place, place'] at less ⊢
  obtain ⟨middle, longer⟩ := Text.exists_append_of_bytes_le (split.symm.trans split') less
  rw [longer, append_assoc] at split'
  have slice := Text.slice_holds split'
  refine ⟨front, back, ?_, ?_⟩
  · simp only [past, longer, slice, String.toList_ofList]
    exact split'
  · simp only [past, longer, slice, String.toList_ofList]

end

variable {t : Tree} {text : String}

namespace Grammar

/-- A tree has legal tokens only. -/
theorem parseTokens_legal {source : List Char} {tokens : List Token} (parsed : parseTokens source tokens = .ok t) :
    ∀ u ∈ t.leaves, u.kind ≠ .illegal := by
  unfold parseTokens at parsed
  dsimp only at parsed
  split at parsed
  · next ran =>
    cases parsed
    obtain ⟨taken, reads, leaves, _⟩ := Symbol.run_advances source _ .script _ _ _ _ ran
    obtain ⟨⟨_, same⟩, _⟩ := script_ends ran
    cases same
    have covered : t.leaves = taken := by simpa [Tree.leavesAll] using leaves
    exact covered ▸ reads.legal
  · cases parsed
  · cases parsed

/-- The leaves of the tree are the tokens in front of the end of the text. -/
theorem parseTokens_bounded {source : List Char} {tokens : List Token} (parsed : parseTokens source tokens = .ok t) :
    t.Bounded source ∧ ∃ rest, tokens = t.leaves ++ rest ∧ (peek rest 0).kind = .eof ∧ (tokens ≠ [] → rest ≠ []) := by
  unfold parseTokens at parsed
  dsimp only at parsed
  split at parsed
  · next s ran =>
    cases parsed
    obtain ⟨taken, reads, leaves, keeps⟩ := Symbol.run_advances source _ .script _ _ _ _ ran
    obtain ⟨⟨_, same⟩, stopped⟩ := script_ends ran
    cases same
    have covered : t.leaves = taken := by simpa [Tree.leavesAll] using leaves
    exact ⟨(keeps (.nil source _)).bounded t mem_cons_self, s.rest, covered ▸ reads.rest, stopped, reads.some⟩
  · cases parsed
  · cases parsed

end Grammar

/-- Of tokens that end in the end of the text, only the last one is left where that end is next. -/
theorem eq_of_append_eof {ts us rest : List Token} {eof : Token} (others : ∀ t ∈ ts, t.kind ≠ .eof)
    (same : ts ++ [eof] = us ++ rest) (some : rest ≠ []) (stopped : (Grammar.peek rest 0).kind = .eof) : us = ts := by
  obtain ⟨more, longer, single⟩ | ⟨more, shorter, last⟩ := append_eq_append_iff.1 same
  · obtain ⟨none, _⟩ | ⟨_, none⟩ := append_eq_singleton_iff.1 single.symm
    · simpa [none] using longer
    · exact absurd none some
  · cases more with
    | nil => simpa using shorter.symm
    | cons t more =>
      rw [last] at stopped
      exact absurd stopped (others t (by simp [shorter]))

theorem parse_eq_ok_iff : parse text = .ok t ↔
    (scan text).errors = [] ∧ Grammar.parseTokens text.toList (scan text).tokens = .ok t := by
  constructor
  · intro parsed
    unfold parse parseText at parsed
    dsimp only at parsed
    split at parsed
    · cases parsed
    · next clean =>
      split at parsed
      · next ok =>
        cases parsed
        exact ⟨clean, ok⟩
      · cases parsed
  · rintro ⟨clean, ok⟩
    change (Scan.ofText text.toList).errors = [] at clean
    unfold parse parseText
    change Grammar.parseTokens text.toList (Scan.ofText text.toList).tokens = .ok t at ok
    simp only [clean, ok]

/-- The tokens of a text that parses are the leaves of its tree and the end. -/
theorem tokens_of_parse (parsed : parse text = .ok t) :
    ∃ eof, (scan text).tokens = t.leaves ++ [eof] ∧ eof.kind = .eof ∧ ∀ u ∈ t.leaves, u.kind ≠ .eof := by
  have laid : Scan.Laid [] text.toList (scan text).tokens (scan text).comments := Scan.ofText_laid text.toList
  obtain ⟨tokens, eof, split, kind, others, -⟩ := laid.exists_eof
  have inside : ∀ u ∈ tokens, u.kind ≠ .eof := fun u member => (others u member).1
  obtain ⟨-, rest, read, stopped, some⟩ := Grammar.parseTokens_bounded (parse_eq_ok_iff.1 parsed).2
  have leaves : t.leaves = tokens := eq_of_append_eof inside (split.symm.trans read) (some (by simp [split])) stopped
  exact ⟨eof, leaves ▸ split, kind, leaves ▸ inside⟩

/-- The tree of a text has the tokens of the text as its leaves, each once and in order, and every
node that covers tokens tells the first, the last and the text between them. -/
theorem parse_keeps_tokens {text : String} {t : Tree} (parsed : parse text = .ok t) :
    t.leaves = (scan text).tokens.dropLast ∧
      ∀ d n, (d, n) ∈ t.nodesFrom 0 → n.leaves ≠ [] → n.Delimits text.toList := by
  have laid : Scan.Laid [] text.toList (scan text).tokens (scan text).comments := Scan.ofText_laid text.toList
  obtain ⟨tokens, eof, split, _, others, _⟩ := laid.exists_eof
  have built : Grammar.parseTokens text.toList (scan text).tokens = .ok t := by
    unfold parse parseText at parsed
    dsimp only at parsed
    split at parsed
    · cases parsed
    · split at parsed
      · next ok =>
        cases parsed
        exact ok
      · cases parsed
  obtain ⟨bounded, rest, read, stopped, some⟩ := Grammar.parseTokens_bounded built
  have leaves : t.leaves = tokens :=
    eq_of_append_eof (fun t member => (others t member).1) (split.symm.trans read) (some (by simp [split])) stopped
  refine ⟨by rw [leaves, split, List.dropLast_concat], ?_⟩
  intro d n member covers
  obtain ⟨inner, sub⟩ := bounded.of_mem_nodesFrom 0 t member
  have sub : n.leaves.Sublist (scan text).tokens := by
    rw [leaves] at sub
    exact sub.trans (by simp [split])
  cases inner with
  | leaf u => exact ⟨rfl, rfl, laid.holds_token u (sub.subset List.mem_cons_self)⟩
  | node edges all =>
    obtain ⟨head, tail, rfl⟩ := edges covers
    exact ⟨head, tail, Span.holds_slice (fun t among => laid.holds_token t (sub.subset among))
      (laid.tokens_inOrder.sublist sub) head tail⟩

theorem parse_keeps_tokens_of_nested_query :
    ∃ t, parse "WITH c AS (SELECT 'é' x) /* k */\n((SELECT * FROM c));" = .ok t ∧
      t.leaves = (scan "WITH c AS (SELECT 'é' x) /* k */\n((SELECT * FROM c));").tokens.dropLast ∧
      ∀ d n, (d, n) ∈ t.nodesFrom 0 → n.leaves ≠ [] →
        n.Delimits "WITH c AS (SELECT 'é' x) /* k */\n((SELECT * FROM c));".toList := by
  generalize same : parse "WITH c AS (SELECT 'é' x) /* k */\n((SELECT * FROM c));" = parsed
  have accepted : parsed.toOption.isSome := by
    rw [← same]
    decide +kernel
  cases parsed with
  | error => cases accepted
  | ok t => exact ⟨t, rfl, parse_keeps_tokens same⟩

/-! ### What is left out -/

namespace Tree

/-- The byte of a text with the number `i` belongs to the text of a leaf, stands in a comment, or is
blank. -/
def Accounts (t : Tree) (text : String) (i : Nat) : Prop :=
  (∃ u ∈ t.leaves, u.span.Holds text.toList u.raw ∧ u.span.Covers i) ∨
    (∃ k ∈ (scan text).comments, k.span.Covers i) ∨ ∃ b ∈ Scan.blankBytes, (Text.bytesOf text.toList)[i]? = some b

/-- The tree accounts for the first `n` bytes of a text, and nothing of it comes from the others. -/
structure StopsAt (t : Tree) (text : String) (n : Nat) : Prop where
  accounts : ∀ i < n, t.Accounts text i
  leaves : ∀ u ∈ t.leaves, u.span.stop.offset ≤ n
  comments : ∀ k ∈ (scan text).comments, k.span.stop.offset ≤ n

theorem StopsAt.not_accounts {n : Nat} (stops : t.StopsAt text n) (next : (Text.bytesOf text.toList)[n]? = some 0) :
    ¬ t.Accounts text n := by
  rintro (⟨u, member, -, covers⟩ | ⟨k, member, covers⟩ | ⟨b, blank, byte⟩)
  · exact Nat.not_lt.2 (stops.leaves u member) covers.2
  · exact Nat.not_lt.2 (stops.comments k member) covers.2
  · rw [next] at byte
    cases byte
    exact absurd blank (by decide)

end Tree

/-- A tree stops at the end of its text, or in front of a NUL. -/
theorem stopsAt_of_parse (parsed : parse text = .ok t) :
    ∃ front back, text.toList = front ++ back ∧ (∀ c ∈ back.head?, c = Scan.nul) ∧
      t.StopsAt text (Text.bytesOf front).length := by
  have laid : Scan.Laid [] text.toList (scan text).tokens (scan text).comments := Scan.ofText_laid text.toList
  obtain ⟨eof, split, -⟩ := tokens_of_parse parsed
  obtain ⟨_, _, split', -, -, front, back, whole, start, stopped⟩ := laid.exists_eof
  obtain ⟨rfl, single⟩ := append_inj' (split'.symm.trans split) rfl
  cases single
  have stop : eof.span.start.offset = (Text.bytesOf front).length := by rw [start, nil_append, past]
  refine ⟨front, back, whole, stopped, fun i before => ?_, fun u member => ?_, fun k member => ?_⟩
  · rw [← stop] at before
    obtain ⟨u, member, covers⟩ | other := laid.covered_or_blank (Nat.zero_le i) ⟨eof, by simp [split], before⟩
    · have holds := laid.holds_token u member
      rw [split] at member
      obtain leaf | final := mem_append.1 member
      · exact .inl ⟨u, leaf, holds, covers⟩
      · obtain rfl := mem_singleton.1 final
        exact absurd before (Nat.not_lt.2 covers.1)
    · exact .inr other
  · have order := laid.tokens_inOrder
    rw [split, pairwise_append] at order
    exact stop ▸ order.2.2 u member eof mem_cons_self
  · exact stop ▸ laid.comment_precedes_last (by simp [split]) k member

/-- A text that parses is in its tree up to a NUL or to its end. The tree accounts for all bytes of the
text just if it does so for those that are NUL. -/
theorem parse_accounts_until_nul {text : String} {t : Tree} (parsed : parse text = .ok t) :
    (∃ front back, text.toList = front ++ back ∧ (∀ c ∈ back.head?, c = Scan.nul) ∧
      t.StopsAt text (Text.bytesOf front).length) ∧
    ((∀ i < (Text.bytesOf text.toList).length, t.Accounts text i) ↔
      ∀ i, (Text.bytesOf text.toList)[i]? = some 0 → t.Accounts text i) := by
  obtain ⟨front, back, split, stopped, stops⟩ := stopsAt_of_parse parsed
  refine ⟨⟨front, back, split, stopped, stops⟩, ?_, ?_⟩
  · intro all i byte
    exact all i (List.getElem?_eq_some_iff.1 byte).1
  · intro nuls i inside
    cases back with
    | nil =>
      rw [split, List.append_nil] at inside
      exact stops.accounts i inside
    | cons c back =>
      obtain rfl := stopped c rfl
      have next : (Text.bytesOf text.toList)[(Text.bytesOf front).length]? = some 0 := by
        rw [split, ← List.singleton_append, Text.bytesOf_append, Text.bytesOf_append,
          List.getElem?_append_right (Nat.le_refl _), Nat.sub_self]
        rfl
      exact absurd (nuls _ next) (stops.not_accounts next)

theorem parse_accounts_until_nul_behind_quoted_one :
    ∃ t, parse "SELECT $$a\x00b$$ -- k\n;\x00 DROP TABLE t" = .ok t ∧
      (∃ front back, "SELECT $$a\x00b$$ -- k\n;\x00 DROP TABLE t".toList = front ++ back ∧
        (∀ c ∈ back.head?, c = Scan.nul) ∧
        t.StopsAt "SELECT $$a\x00b$$ -- k\n;\x00 DROP TABLE t" (Text.bytesOf front).length) ∧
      ((∀ i < (Text.bytesOf "SELECT $$a\x00b$$ -- k\n;\x00 DROP TABLE t".toList).length,
          t.Accounts "SELECT $$a\x00b$$ -- k\n;\x00 DROP TABLE t" i) ↔
        ∀ i, (Text.bytesOf "SELECT $$a\x00b$$ -- k\n;\x00 DROP TABLE t".toList)[i]? = some 0 →
          t.Accounts "SELECT $$a\x00b$$ -- k\n;\x00 DROP TABLE t" i) := by
  generalize same : parse "SELECT $$a\x00b$$ -- k\n;\x00 DROP TABLE t" = parsed
  have accepted : parsed.toOption.isSome := by
    rw [← same]
    decide +kernel
  cases parsed with
  | error => cases accepted
  | ok t => exact ⟨t, rfl, parse_accounts_until_nul same⟩

/-- A statement behind a NUL goes unnoticed. -/
theorem parse_ignores_statement_behind_nul : ∃ t, parse "SELECT 1; \x00 DROP TABLE t" = .ok t ∧
    ∃ i < (Text.bytesOf "SELECT 1; \x00 DROP TABLE t".toList).length,
      ¬ t.Accounts "SELECT 1; \x00 DROP TABLE t" i := by
  generalize same : parse "SELECT 1; \x00 DROP TABLE t" = parsed
  have before : parsed.toOption.any fun t => t.leaves.all fun u => decide (u.span.stop.offset ≤ 12) := by
    rw [← same]
    decide +kernel
  have bare : (scan "SELECT 1; \x00 DROP TABLE t").comments = [] := by decide +kernel
  cases parsed with
  | error => cases before
  | ok t =>
    refine ⟨t, rfl, 12, by decide +kernel, ?_⟩
    rintro (⟨u, member, -, covers⟩ | ⟨k, member, -⟩ | ⟨b, blank, byte⟩)
    · have stops : u.span.stop.offset ≤ 12 := of_decide_eq_true (List.all_eq_true.1 before u member)
      exact Nat.not_lt.2 stops covers.2
    · rw [bare] at member
      cases member
    · revert b
      decide +kernel

end TableLineage
