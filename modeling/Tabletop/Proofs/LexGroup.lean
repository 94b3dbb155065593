import Mathlib.Data.List.Find
import Tabletop.Proofs.Grouping
import Tabletop.Proofs.Legible
import Tabletop.Proofs.Lexemes

/-!
# Reading a group in brackets

A round bracket ends whatever lexeme stands before it (`Lexeme.scan_append_mark`), and what follows a
bracket is read the same whatever stands before it (`tokensOf_append_bracket`). So a text in brackets means
the tokens that it means alone (`tokenize_group`). The links of a chain after the group are legible pieces
(`Link.legible_links`).
-/

namespace Tabletop
open Text

namespace Lexeme

/-- Neither lists nor points. -/
def Plain (s : List Char) : Prop := ∀ c ∈ s, c ≠ '[' ∧ c ≠ '.'

/-- The round brackets. -/
def marks : List Char := ['(', ')']

variable {c mark : Char} {s cs : List Char}

theorem numeral?_of_next (h : (s.drop (s.takeWhile isDigit).length).head? ≠ some '.') :
    numeral? s = if (s.takeWhile isDigit).isEmpty then none else some (numeral (s.takeWhile isDigit)) := by
  unfold numeral?
  dsimp only
  split
  · rename_i hcs; rw [hcs] at h; exact absurd rfl h
  · rfl

theorem numeral?_of_plain (h : Plain s) :
    numeral? s = if (s.takeWhile isDigit).isEmpty then none else some (numeral (s.takeWhile isDigit)) :=
  numeral?_of_next fun hhead => (h '.' (List.mem_of_mem_drop (List.mem_of_mem_head? hhead))).2 rfl

theorem first_of_plain (h : Plain (c :: cs)) :
    first c cs = if ((c :: cs).takeWhile isDigit).isEmpty then (word? (c :: cs)).getD (stray c)
      else numeral ((c :: cs).takeWhile isDigit) := by
  have hc : c ≠ '[' := (h c List.mem_cons_self).1
  simp only [first, list?_of_ne hc, numeral?_of_plain h, Option.none_or]
  split <;> rfl

theorem of_mem_marks (hmark : mark ∈ marks) :
    isDigit mark = false ∧ isListCharacter mark = false ∧ mark ≠ '.' ∧ mark ≠ ']' := by
  have table : ∀ m ∈ marks, isDigit m = false ∧ isListCharacter m = false ∧ m ≠ '.' ∧ m ≠ ']' :=
    List.all_iff_forall_prop.1 (by decide)
  exact table mark hmark

theorem list?_append_mark (hmark : mark ∈ marks) (rest : List Char) :
    list? (c :: (cs ++ mark :: rest)) = list? (c :: cs) := by
  by_cases hc : c = '['
  · subst hc
    obtain ⟨-, hstop, -, hclose⟩ := of_mem_marks hmark
    obtain ⟨htake, hdrop⟩ := takeWhile_append_of_stop isListCharacter hstop cs rest
    simp only [list?, htake, hdrop]
    cases cs.drop (cs.takeWhile isListCharacter).length <;> simp [hclose]
  · rw [list?_of_ne hc, list?_of_ne hc]

theorem numeral?_append_mark (hmark : mark ∈ marks) (s rest : List Char) :
    numeral? (s ++ mark :: rest) = numeral? s := by
  obtain ⟨hdigit, -, hpoint, -⟩ := of_mem_marks hmark
  obtain ⟨htake, hdrop⟩ := takeWhile_append_of_stop isDigit hdigit s rest
  by_cases hnext : (s.drop (s.takeWhile isDigit).length).head? = some '.'
  · obtain ⟨more, hmore⟩ := List.head?_eq_some_iff.1 hnext
    simp only [numeral?, htake, hdrop, hmore, List.cons_append,
      (takeWhile_append_of_stop isDigit hdigit more rest).1]
  · have hnext' : ((s ++ mark :: rest).drop ((s ++ mark :: rest).takeWhile isDigit).length).head? ≠ some '.' := by
      rw [htake, hdrop]
      cases hs : s.drop (s.takeWhile isDigit).length with
      | nil => simpa using hpoint
      | cons a more => rwa [hs] at hnext
    rw [numeral?_of_next hnext, numeral?_of_next hnext', htake]

/-- A bracket is a word, and is in no other one. -/
theorem word?_append_mark (hmark : mark ∈ marks) (hs : s ≠ []) (rest : List Char) :
    word? (s ++ mark :: rest) = word? s := by
  have table : ∀ m ∈ marks, ∀ w ∈ words, m ∈ w.text → w.text = [m] := by
    have hall : (marks.all fun m => words.all fun w => !w.text.contains m || w.text == [m]) = true := by
      decide
    intro m hm w hw hmem
    have := List.all_eq_true.1 (List.all_eq_true.1 hall m hm) w hw
    simpa [hmem] using this
  refine List.find?_congr fun w hw => ?_
  rw [Bool.eq_iff_iff, List.isPrefixOf_iff_prefix, List.isPrefixOf_iff_prefix]
  refine ⟨fun hpre => ?_, fun hpre => hpre.trans (List.prefix_append ..)⟩
  rcases List.prefix_or_prefix_of_prefix hpre (List.prefix_append s _) with h | ⟨more, hmore⟩
  · exact h
  · rw [← hmore, List.prefix_append_right_inj] at hpre
    cases more with
    | nil => rw [List.append_nil] at hmore; exact hmore ▸ List.prefix_rfl
    | cons c more =>
      -- the word would go past the bracket
      obtain ⟨tail, htail⟩ := hpre
      obtain rfl : c = mark := (List.cons.inj htail).1
      have htext := table c hmark w hw (by rw [← hmore]; simp)
      rw [← hmore] at htext
      cases s with
      | nil => exact absurd rfl hs
      | cons a s => simp at htext

theorem first_append_mark (hmark : mark ∈ marks) (c : Char) (cs rest : List Char) :
    first c (cs ++ mark :: rest) = first c cs := by
  have hnumeral := numeral?_append_mark hmark (c :: cs) rest
  have hword := word?_append_mark hmark (List.cons_ne_nil c cs) rest
  rw [List.cons_append] at hnumeral hword
  simp only [first, list?_append_mark hmark, hnumeral, hword]

/-- Before a round bracket a text falls into the same lexemes as alone. -/
theorem scan_append_mark (hmark : mark ∈ marks) {skip : Nat} (hskip : skip ≤ s.length) (rest : List Char) :
    scan skip (s ++ mark :: rest) = scan skip s ++ scan 0 (mark :: rest) := by
  induction s generalizing skip with
  | nil =>
    obtain rfl : skip = 0 := Nat.le_zero.1 hskip
    rfl
  | cons c cs ih =>
    cases skip with
    | succ skip => exact ih (Nat.le_of_succ_le_succ hskip)
    | zero =>
      have hlen := (isPrefix_text_first c cs).length_le
      rw [List.length_cons] at hlen
      rw [List.cons_append, scan, scan, first_append_mark hmark, ih (by omega), List.cons_append]

theorem ofText_append_opening (s rest : List Char) :
    ofText (s ++ '(' :: rest) = ofText s ++ word (.opening .round) :: ofText rest := by
  have hopen : scan 0 ('(' :: rest) = word (.opening .round) :: scan 0 rest :=
    scan_text_append (stands_of_nil (opening_mem_words .round) rfl rest)
  rw [ofText, scan_append_mark (by decide) (Nat.zero_le _), hopen, ofText, ofText]

theorem ofText_append_closing (s rest : List Char) :
    ofText (s ++ ')' :: rest) = ofText s ++ word (.closing .round) :: ofText rest := by
  have hclose : scan 0 (')' :: rest) = word (.closing .round) :: scan 0 rest :=
    scan_text_append (stands_of_nil (closing_mem_words .round) rfl rest)
  rw [ofText, scan_append_mark (by decide) (Nat.zero_le _), hclose, ofText, ofText]

end Lexeme

/-! ### Tokens -/

/-- Any bracket is the same token wherever it stands, and what follows it does not depend on what stands
before it. -/
theorem tokensOf_append_bracket (mode : Mode) (bare : Bool) {t : Token} (ht : t.isBracket = true)
    (ls ms : List Lexeme) :
    tokensOf mode bare (ls ++ .word t :: ms) = (do
      let ts ← tokensOf mode bare ls
      let us ← tokensOf mode t.wantsOperand ms
      pure (ts ++ t :: us)) := by
  induction ls generalizing bare with
  | nil => cases t <;> first | (cases mode <;> rfl) | cases ht
  | cons l ls ih =>
    simp only [List.cons_append, tokensOf, bind_assoc, ih, pure_bind, List.append_assoc]

/-- A text in brackets means the tokens that it means alone, in brackets, and what follows is read as it is
after any operand. -/
theorem tokenize_group {d more : List Char} {text : String}
    (htext : squeeze text.toList = '(' :: (squeeze d ++ ')' :: more)) :
    tokenize .dice text = (do
      let ts ← tokenize .dice (String.ofList d)
      let us ← tokensOf .dice false (Lexeme.ofText more)
      pure (.opening .round :: (ts ++ .closing .round :: us))) := by
  have hopen := Lexeme.ofText_append_opening [] (squeeze d ++ ')' :: more)
  rw [List.nil_append] at hopen
  rw [tokenize, htext, hopen, Lexeme.ofText_append_closing, tokensOf_append_bracket .dice _ rfl,
    tokensOf_append_bracket .dice _ rfl, tokenize, String.toList_ofList]
  simp only [bind_assoc, pure_bind]
  rfl

namespace Link

def pieces (l : Link) : List Piece := [.ofToken l.op.token, ⟨l.written.lexeme, l.written.token⟩]

def textOf (links : List Link) : List Char := Piece.textOf (links.flatMap pieces)

theorem textOf_singleton (l : Link) : textOf [l] = l.op.token.text.toList ++ l.written.lexeme.text :=
  congrArg (l.op.token.text.toList ++ ·) (List.append_nil _)

theorem textOf_append (ls ms : List Link) : textOf (ls ++ ms) = textOf ls ++ textOf ms := by
  simp [textOf, Piece.textOf]

theorem map_token_pieces (links : List Link) :
    (links.flatMap pieces).map Piece.token = links.flatMap tokens := by
  rw [List.map_flatMap]
  rfl

/-- The links of a chain are legible in front of all that may follow an operand. -/
theorem legible_links_append (links : List Link) (ps : List Piece) (hps : Piece.Legible false ps)
    (hcloses : Closes (Piece.textOf ps)) :
    Piece.Legible false (links.flatMap pieces ++ ps) ∧ Closes (Piece.textOf (links.flatMap pieces ++ ps)) := by
  induction links with
  | nil => exact ⟨hps, hcloses⟩
  | cons l links ih =>
    obtain ⟨hlegible, hcloses⟩ := ih
    have harg : Piece.Legible l.op.token.wantsOperand
        (⟨l.written.lexeme, l.written.token⟩ :: (links.flatMap pieces ++ ps)) :=
      ⟨l.written.stands hcloses, l.written.isBlank_text, l.written.reads_any _,
        by rw [l.written.token_wantsOperand]; exact hlegible⟩
    have hopens : Opens bareOpeners
        (Piece.textOf (⟨l.written.lexeme, l.written.token⟩ :: (links.flatMap pieces ++ ps))) := by
      rw [Piece.textOf_cons]
      exact l.written.opens _
    exact Tree.legible_binary l.op harg (hopens.mono bareOpeners_subset) fun _ => hopens

theorem legible_links (links : List Link) :
    Piece.Legible false (links.flatMap pieces) ∧ Closes (Piece.textOf (links.flatMap pieces)) := by
  have h := legible_links_append links [] trivial fun c hc => by cases hc
  rwa [List.append_nil] at h

/-- What a chain means after an operand. -/
theorem tokensOf_textOf (links : List Link) :
    tokensOf .dice false (Lexeme.ofText (textOf links)) = .ok (links.flatMap tokens) := by
  have h := (legible_links links).1
  rw [textOf, h.ofText, h.tokensOf, map_token_pieces]

end Link

end Tabletop
